import Workdays.Proofs.Result
import Workdays.Proofs.Rule.Layout
import Workdays.Proofs.Time.Period
import Workdays.Rule.Reader

/-!
# The language of rules

A line is read as a rule when it can be cut into parts that can be read, and the rule is the one
that these parts denote. No line can be cut in two ways, so the order in which the reader tries the
parts is of no account.

## Main definitions

* `Description.unlessBlank`: the text of a description, which is missing if it is blank.
* `LineParts.Denotes`: the rule that parts stand for.
* `LineParts.Cut`: the cuts of a line into parts that can be read.
-/

namespace Workdays

/-! ## Descriptions -/

namespace Description

variable {text : String} {description : Option Description}

/-- The text, or none if it is blank. -/
def unlessBlank (text : Option String) : Option String :=
  text.filter fun text => ¬ Text.AllBlank text.toList

theorem unlessBlank_of_allBlank (h : Text.AllBlank text.toList) : unlessBlank text = none := by
  simp [unlessBlank, Option.filter_some, h]

theorem unlessBlank_of_not_allBlank (h : ¬ Text.AllBlank text.toList) :
    unlessBlank text = some text := by
  simp [unlessBlank, Option.filter_some, h]

/-- The text of a description is the one that it is made of. -/
theorem ofText_eq_ok_iff :
    ofText text = .ok description ↔ description.map Description.text = unlessBlank text := by
  by_cases hblank : Text.AllBlank text.toList
  · have hnone : ofText text = .ok none := dif_pos hblank
    rw [hnone, Except.ok.injEq, unlessBlank_of_allBlank hblank, Option.map_eq_none_iff, eq_comm]
  · rw [unlessBlank_of_not_allBlank hblank]
    constructor
    · intro h
      unfold ofText at h
      split at h
      · contradiction
      · split at h
        · split at h
          · cases h
            rfl
          · cases h
        · cases h
    · intro h
      obtain ⟨description, rfl, rfl⟩ := Option.map_eq_some_iff.1 h
      exact ofText_text description

end Description

namespace LineParts

/-- The field is missing and there are no periods, or its segments denote the periods. -/
inductive PeriodsDenote : Option (List Char) → List Period → Prop
  | missing : PeriodsDenote none []
  | field {cs : List Char} {periods : List Period} :
      Written.Lists cs periods → PeriodsDenote (some cs) periods

theorem periodsDenote_none_iff {periods : List Period} :
    PeriodsDenote none periods ↔ periods = [] := by
  constructor
  · rintro ⟨⟩
    rfl
  · rintro rfl
    exact .missing

theorem periodsDenote_some_iff {cs : List Char} {periods : List Period} :
    PeriodsDenote (some cs) periods ↔ Written.Lists cs periods := by
  constructor
  · rintro ⟨⟩
    assumption
  · exact .field

/-- The rule is made of what the parts denote; a blank description denotes none. -/
structure Denotes (p : LineParts) (r : Rule) : Prop where
  years : Written.Lists p.year r.pattern.years
  months : Written.Lists p.month r.pattern.months
  daysOfMonth : Written.Lists p.dayOfMonth r.pattern.daysOfMonth
  daysOfWeek : Written.Lists p.dayOfWeek r.pattern.daysOfWeek
  description : r.descriptionText = Description.unlessBlank (p.description.map String.ofList)
  periods : PeriodsDenote p.periods r.periods

/-- The line has the parts, each segment of a field denotes something, and a description that is not
blank stands on one line. -/
structure Cut (p : LineParts) (line : List Char) : Prop where
  layout : Layout p line
  year : ∃ years : List YearSelector, Written.Lists p.year years
  month : ∃ months : List (Selector .months), Written.Lists p.month months
  dayOfMonth : ∃ daysOfMonth : List (Selector .daysOfMonth), Written.Lists p.dayOfMonth daysOfMonth
  dayOfWeek : ∃ daysOfWeek : List (Selector .daysOfWeek), Written.Lists p.dayOfWeek daysOfWeek
  description : ∀ text ∈ p.description, Text.AllBlank text ∨ '\n' ∉ text ∧ '\r' ∉ text
  periods : ∀ field ∈ p.periods, ∃ periods : List Period, Written.Lists field periods

end LineParts

namespace Rule

variable {σ : Type} [Written σ] {cs : List Char} {p : LineParts} {r : Rule}

theorem readField_eq_ok_iff {selectors : List σ} :
    readField σ cs = .ok selectors ↔ Written.Lists cs selectors := by
  rw [← Written.readList?_eq_some_iff, readField]
  cases Written.readList? σ [','] cs <;> simp

theorem readPeriods_eq_ok_iff {field : Option (List Char)} {periods : List Period} :
    readPeriods field = .ok periods ↔ LineParts.PeriodsDenote field periods := by
  cases field with
  | none => rw [LineParts.periodsDenote_none_iff, readPeriods, Except.ok.injEq, eq_comm]
  | some cs =>
    rw [LineParts.periodsDenote_some_iff, ← Written.readList?_eq_some_iff, readPeriods]
    cases Written.readList? Period [','] cs <;> simp

theorem ofParts_eq_ok_iff {pattern : Pattern} {description : Option String}
    {periods : List Period} :
    ofParts pattern description periods = .ok r ↔ r.pattern = pattern ∧ r.periods = periods ∧
      r.descriptionText = Description.unlessBlank description := by
  obtain ⟨pattern', description', periods'⟩ := r
  cases description with
  | none =>
    simp only [ofParts, Except.ok.injEq, Rule.mk.injEq, descriptionText, Description.unlessBlank,
      Option.filter_none, Option.map_eq_none_iff]
    grind
  | some text =>
    simp only [descriptionText, ← Description.ofText_eq_ok_iff, ofParts]
    cases Description.ofText text with
    | error fault => simp [Except.map]
    | ok description =>
      simp only [Except.map, Except.ok.injEq, Rule.mk.injEq]
      grind

/-- The rule of the parts of a line is the one that they denote. -/
theorem ofLineParts_eq_ok_iff : ofLineParts p = .ok r ↔ p.Denotes r := by
  simp only [ofLineParts, bind_eq_ok_iff, mapError_eq_ok_iff, readField_eq_ok_iff,
    readPeriods_eq_ok_iff, ofParts_eq_ok_iff]
  constructor
  · rintro ⟨years, hyears, months, hmonths, days, hdays, weekdays, hweekdays, periods, hperiods,
      hpattern, rfl, hdescription⟩
    exact ⟨hpattern ▸ hyears, hpattern ▸ hmonths, hpattern ▸ hdays, hpattern ▸ hweekdays,
      hdescription, hperiods⟩
  · intro h
    exact ⟨_, h.years, _, h.months, _, h.daysOfMonth, _, h.daysOfWeek, _, h.periods, rfl, rfl,
      h.description⟩

theorem read?_eq_some_iff {line : List Char} :
    Written.read? line = some r ↔ ∃ p, LineParts.read? line = some p ∧ p.Denotes r := by
  change (ofLine line).toOption = some r ↔ _
  simp only [toOption_eq_some_iff, ← ofLineParts_eq_ok_iff, ofLine]
  cases LineParts.read? line with
  | none => simp
  | some p => simp

end Rule

namespace LineParts

variable {p q : LineParts} {line : List Char} {r s : Rule}

theorem Denotes.unique (hr : p.Denotes r) (hs : p.Denotes s) : r = s := by
  rw [← Rule.ofLineParts_eq_ok_iff] at hr hs
  exact Except.ok.inj (hr.symm.trans hs)

theorem Tail.isCut_eq_false {description periods : Option (List Char)} {cs : List Char}
    (h : Tail description periods cs) :
    ∀ text ∈ description, Description.isCut text = false := by
  intro text htext
  cases h with
  | bare => cases htext
  | parts _ _ _ _ hdescription =>
    obtain ⟨-, hends⟩ := hdescription text htext
    rwa [Description.endsWithin_iff_isCut, Bool.not_eq_true] at hends

/-- The guard on descriptions passes what stands between the brackets in a line. -/
theorem Layout.isCut_eq_false (h : Layout p line) :
    ∀ text ∈ p.description, Description.isCut text = false := by
  obtain ⟨-, -, -, -, -, -, -, -, htail, -⟩ := h
  exact htail.isCut_eq_false

theorem Cut.exists_description (h : Cut p line) : ∃ description : Option Description,
    description.map Description.text =
      Description.unlessBlank (p.description.map String.ofList) := by
  cases hd : p.description with
  | none => exact ⟨none, rfl⟩
  | some text =>
    have honeLine := h.description text hd
    have hcut := h.layout.isCut_eq_false text hd
    rw [← String.toList_ofList (l := text)] at honeLine hcut
    by_cases hblank : Text.AllBlank (String.ofList text).toList
    · exact ⟨none, (Description.unlessBlank_of_allBlank hblank).symm⟩
    · exact ⟨some ⟨String.ofList text, hblank, honeLine.resolve_left hblank, hcut⟩,
        (Description.unlessBlank_of_not_allBlank hblank).symm⟩

theorem Cut.exists_periods (h : Cut p line) : ∃ periods, PeriodsDenote p.periods periods := by
  cases hp : p.periods with
  | none => exact ⟨[], .missing⟩
  | some field =>
    obtain ⟨periods, hperiods⟩ := h.periods field hp
    exact ⟨periods, .field hperiods⟩

theorem Cut.exists_denotes (h : Cut p line) : ∃ r, p.Denotes r := by
  obtain ⟨years, hyears⟩ := h.year
  obtain ⟨months, hmonths⟩ := h.month
  obtain ⟨daysOfMonth, hdaysOfMonth⟩ := h.dayOfMonth
  obtain ⟨daysOfWeek, hdaysOfWeek⟩ := h.dayOfWeek
  obtain ⟨description, hdescription⟩ := h.exists_description
  obtain ⟨periods, hperiods⟩ := h.exists_periods
  exact ⟨⟨⟨years, months, daysOfMonth, daysOfWeek⟩, description, periods⟩,
    hyears, hmonths, hdaysOfMonth, hdaysOfWeek, hdescription, hperiods⟩

/-- Periods that can be read are not taken for a description. -/
theorem head?_ne_of_lists {cs : List Char} {periods : List Period}
    (h : Written.Lists cs periods) : cs.head? ≠ some '[' := by
  obtain ⟨h₁, h₂, m₁, m₂, text, rfl, hdigit, -⟩ :=
    Description.startsPeriod_iff.1 (Period.startsPeriod_of_lists h)
  rintro ⟨⟩
  cases hdigit

theorem Cut.read?_eq_some (h : Cut p line) : read? line = some p := by
  refine read?_of_layout h.layout fun _ field hfield => ?_
  obtain ⟨periods, hperiods⟩ := h.periods field hfield
  exact head?_ne_of_lists hperiods

theorem Denotes.cut (h : p.Denotes r) (hlayout : Layout p line) : Cut p line := by
  refine ⟨hlayout, ⟨_, h.years⟩, ⟨_, h.months⟩, ⟨_, h.daysOfMonth⟩, ⟨_, h.daysOfWeek⟩, ?_, ?_⟩
  · intro text htext
    rw [← String.toList_ofList (l := text)]
    by_cases hblank : Text.AllBlank (String.ofList text).toList
    · exact .inl hblank
    · have hdescription := h.description
      rw [Option.mem_def.1 htext, Option.map_some,
        Description.unlessBlank_of_not_allBlank hblank] at hdescription
      obtain ⟨description, -, hd⟩ := Option.map_eq_some_iff.1 hdescription
      have honeLine := description.oneLine
      rw [hd] at honeLine
      exact .inr honeLine
  · intro field hfield
    have hperiods := h.periods
    rw [Option.mem_def.1 hfield, periodsDenote_some_iff] at hperiods
    exact ⟨_, hperiods⟩

/-- The lines that are read are the lines that have a cut. All that is read of a line is told by any
of its cuts, and there is only one. -/
theorem parse?_rule_iff_cut (line : String) :
    ((∃ r, parse? Rule line = some r) ↔ ∃ p, Cut p line.toList) ∧
      (∀ p, Cut p line.toList → ∃ r, parse? Rule line = some r ∧ p.Denotes r ∧
        ∀ s, p.Denotes s → s = r) ∧
      ∀ p q, Cut p line.toList → Cut q line.toList → p = q := by
  have hread (p : LineParts) (h : Cut p line.toList) :
      ∃ r, parse? Rule line = some r ∧ p.Denotes r ∧ ∀ s, p.Denotes s → s = r := by
    obtain ⟨r, hr⟩ := h.exists_denotes
    exact ⟨r, Rule.read?_eq_some_iff.2 ⟨p, h.read?_eq_some, hr⟩, hr, fun s hs => hs.unique hr⟩
  refine ⟨⟨?_, ?_⟩, hread, ?_⟩
  · intro h
    obtain ⟨r, hr⟩ := h
    obtain ⟨p, hp, hdenotes⟩ := Rule.read?_eq_some_iff.1 hr
    exact ⟨p, hdenotes.cut (layout_of_read? hp)⟩
  · intro h
    obtain ⟨p, hp⟩ := h
    obtain ⟨r, hr, -⟩ := hread p hp
    exact ⟨r, hr⟩
  · intro p q hp hq
    exact Option.some.inj (hp.read?_eq_some.symm.trans hq.read?_eq_some)

/-- The first `]]` of the line is in the description, and the line has a cut all the same. -/
theorem parse?_rule_iff_cut_brackets :
    ∃ p r, Cut p "* * * * [[a]]b]]".toList ∧ parse? Rule "* * * * [[a]]b]]" = some r ∧
      p.Denotes r := by
  have hread : read? "* * * * [[a]]b]]".toList =
      some ⟨['*'], ['*'], ['*'], ['*'], some "a]]b".toList, none⟩ := by
    decide +kernel
  have hstar {σ : Type} [Written σ] {s : σ} (h : Written.read? ['*'] = some s) :
      Written.Lists ['*'] [s] := ⟨[['*']], ⟨by simp, by simp, rfl⟩, .cons h .nil⟩
  have hdenotes : Denotes ⟨['*'], ['*'], ['*'], ['*'], some "a]]b".toList, none⟩
      ⟨⟨[.all], [.all .months], [.all .daysOfMonth], [.all .daysOfWeek]⟩,
        some ⟨"a]]b", by decide, by decide, by decide⟩, []⟩ :=
    ⟨hstar (by decide +kernel), hstar (by decide +kernel), hstar (by decide +kernel),
      hstar (by decide +kernel), by decide, .missing⟩
  have hcut := hdenotes.cut (layout_of_read? hread)
  obtain ⟨r, hr, hp, -⟩ := (parse?_rule_iff_cut "* * * * [[a]]b]]").2.1 _ hcut
  exact ⟨_, r, hcut, hr, hp⟩

end LineParts

end Workdays
