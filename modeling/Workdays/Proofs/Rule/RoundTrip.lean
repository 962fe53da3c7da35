import Workdays.Proofs.Rule.Reading
import Workdays.Proofs.Selector.Year

/-!
# Forms of rules

A rule is read back from its form unless a number of one of its selectors cannot be read, and the
numbers of a rule that was read all can. An empty list of selectors has the form of the list of one
selector of all values, and comes back as this list. So the form of a rule that was read is a normal
form of its line.

## Main definitions

* `Pattern.IsLegible`: the patterns that are read back.
* `Rule.filled`: the rule with lists that are not empty.
* `Rule.formParts`: the parts of the form of a rule.
-/

namespace Workdays

/-! ## Fields -/

/-- A type with a selector of all values, which is written `*`. -/
class HasAll (σ : Type) [Written σ] [Faithful σ] where
  all : σ
  write_all : Written.write all = ['*']
  isLegible_all : Faithful.IsLegible all

instance {D : Domain} [D.Nonneg] : HasAll (Selector D) where
  all := .all D
  write_all := Interval.write_all D
  isLegible_all := Interval.isLegible_all D

instance : HasAll YearSelector where
  all := .all
  write_all := Interval.write_all .years
  isLegible_all := Interval.isLegible_all .years

namespace Pattern

variable {σ : Type} [Written σ] [Faithful σ] [HasAll σ]

/-- The list, or the selector of all values if it is empty. -/
def fill : List σ → List σ
  | [] => [HasAll.all]
  | selectors => selectors

theorem fill_of_ne_nil {selectors : List σ} (h : selectors ≠ []) : fill selectors = selectors := by
  cases selectors with
  | nil => contradiction
  | cons => rfl

theorem fill_ne_nil (selectors : List σ) : fill selectors ≠ [] := by
  cases selectors <;> simp [fill]

theorem writeField_eq (selectors : List σ) :
    writeField selectors = Written.writeList [','] (fill selectors) := by
  cases selectors with
  | nil => rw [fill, Written.writeList_singleton, HasAll.write_all, writeField]
  | cons => rfl

theorem forall_isLegible_fill {selectors : List σ} :
    (∀ s ∈ fill selectors, Faithful.IsLegible s) ↔ ∀ s ∈ selectors, Faithful.IsLegible s := by
  cases selectors with
  | nil => simp [fill, HasAll.isLegible_all]
  | cons => rfl

theorem lists_writeField_iff {selectors selectors' : List σ} :
    Written.Lists (writeField selectors) selectors' ↔
      (∀ s ∈ selectors, Faithful.IsLegible s) ∧ selectors' = fill selectors := by
  rw [writeField_eq, Faithful.lists_writeList_iff (fill_ne_nil selectors), forall_isLegible_fill]

theorem isField_writeField (selectors : List σ) : LineParts.IsField (writeField selectors) := by
  rw [writeField_eq]
  exact ⟨Faithful.writeList_ne_nil (fill_ne_nil selectors), fun _ => Faithful.of_mem_writeList⟩

def IsRead (p : Pattern) : Prop :=
  (∃ text, parseList? YearSelector "," text = some p.years) ∧
    (∃ text, parseList? (Selector .months) "," text = some p.months) ∧
    (∃ text, parseList? (Selector .daysOfMonth) "," text = some p.daysOfMonth) ∧
    ∃ text, parseList? (Selector .daysOfWeek) "," text = some p.daysOfWeek

def IsLegible (p : Pattern) : Prop :=
  (∀ s ∈ p.years, s.IsLegible) ∧ (∀ s ∈ p.months, s.IsLegible) ∧
    (∀ s ∈ p.daysOfMonth, s.IsLegible) ∧ ∀ s ∈ p.daysOfWeek, s.IsLegible

instance (p : Pattern) : Decidable p.IsLegible := inferInstanceAs (Decidable (_ ∧ _))

/-- The pattern with the selector of all values in its empty lists. -/
def filled (p : Pattern) : Pattern :=
  ⟨fill p.years, fill p.months, fill p.daysOfMonth, fill p.daysOfWeek⟩

variable {p : Pattern}

theorem isRead_iff : p.IsRead ↔ (∃ cs, Written.Lists cs p.years) ∧
    (∃ cs, Written.Lists cs p.months) ∧ (∃ cs, Written.Lists cs p.daysOfMonth) ∧
      ∃ cs, Written.Lists cs p.daysOfWeek := by
  have hlist {σ : Type} [Written σ] {selectors : List σ} :
      (∃ text, parseList? σ "," text = some selectors) ↔ ∃ cs, Written.Lists cs selectors := by
    simp only [← Written.readList?_eq_some_iff]
    constructor
    · intro h
      obtain ⟨text, h⟩ := h
      exact ⟨text.toList, h⟩
    · intro h
      obtain ⟨cs, h⟩ := h
      exact ⟨String.ofList cs, by simpa [parseList?] using h⟩
  simp only [IsRead, hlist]

/-- Whatever was read can be read back. -/
theorem IsRead.isLegible (h : p.IsRead) : p.IsLegible := by
  obtain ⟨⟨_, hyears⟩, ⟨_, hmonths⟩, ⟨_, hdays⟩, ⟨_, hweekdays⟩⟩ := isRead_iff.1 h
  exact ⟨Faithful.isLegible_of_lists hyears, Faithful.isLegible_of_lists hmonths,
    Faithful.isLegible_of_lists hdays, Faithful.isLegible_of_lists hweekdays⟩

/-- Lists that were read are not empty. -/
theorem IsRead.filled_eq (h : p.IsRead) : p.filled = p := by
  obtain ⟨⟨_, hyears⟩, ⟨_, hmonths⟩, ⟨_, hdays⟩, ⟨_, hweekdays⟩⟩ := isRead_iff.1 h
  rw [filled, fill_of_ne_nil hyears.ne_nil, fill_of_ne_nil hmonths.ne_nil,
    fill_of_ne_nil hdays.ne_nil, fill_of_ne_nil hweekdays.ne_nil]

/-- What can be read back is read from its form. -/
theorem IsLegible.isRead_filled (h : p.IsLegible) : p.filled.IsRead := by
  obtain ⟨hyears, hmonths, hdays, hweekdays⟩ := h
  exact isRead_iff.2 ⟨⟨_, lists_writeField_iff.2 ⟨hyears, rfl⟩⟩,
    ⟨_, lists_writeField_iff.2 ⟨hmonths, rfl⟩⟩, ⟨_, lists_writeField_iff.2 ⟨hdays, rfl⟩⟩,
    ⟨_, lists_writeField_iff.2 ⟨hweekdays, rfl⟩⟩⟩

end Pattern

namespace Rule

def filled (r : Rule) : Rule := { r with pattern := r.pattern.filled }

/-- The field of working periods, which is missing if there are none. -/
def periodsField : List Period → Option (List Char)
  | [] => none
  | p :: periods => some (Written.writeList [','] (p :: periods))

def formParts (pattern : Pattern) (description : Option String) (periods : List Period) :
    LineParts where
  year := Pattern.writeField pattern.years
  month := Pattern.writeField pattern.months
  dayOfMonth := Pattern.writeField pattern.daysOfMonth
  dayOfWeek := Pattern.writeField pattern.daysOfWeek
  description := description.map String.toList
  periods := periodsField periods

variable {pattern : Pattern} {description : Option String} {periods : List Period} {r s : Rule}

theorem periodsDenote_periodsField_iff {periods' : List Period} :
    LineParts.PeriodsDenote (periodsField periods) periods' ↔ periods' = periods := by
  cases periods with
  | nil => exact LineParts.periodsDenote_none_iff
  | cons p periods =>
    rw [periodsField, LineParts.periodsDenote_some_iff,
      Faithful.lists_writeList_iff (List.cons_ne_nil p periods)]
    exact and_iff_right fun _ _ => trivial

/-- The parts of a form denote what was written. -/
theorem denotes_formParts_iff : (formParts pattern description periods).Denotes r ↔
    pattern.IsLegible ∧ r.pattern = pattern.filled ∧ r.periods = periods ∧
      r.descriptionText = Description.unlessBlank description := by
  have hdescription : (description.map String.toList).map String.ofList = description := by
    simp [Function.comp_def]
  obtain ⟨⟨years, months, daysOfMonth, daysOfWeek⟩, description', periods'⟩ := r
  constructor
  · intro h
    obtain ⟨hyears, hmonths, hdays, hweekdays, hd, hperiods⟩ := h
    obtain ⟨lyears, rfl⟩ := Pattern.lists_writeField_iff.1 hyears
    obtain ⟨lmonths, rfl⟩ := Pattern.lists_writeField_iff.1 hmonths
    obtain ⟨ldays, rfl⟩ := Pattern.lists_writeField_iff.1 hdays
    obtain ⟨lweekdays, rfl⟩ := Pattern.lists_writeField_iff.1 hweekdays
    rw [formParts, hdescription] at hd
    exact ⟨⟨lyears, lmonths, ldays, lweekdays⟩, rfl, periodsDenote_periodsField_iff.1 hperiods, hd⟩
  · intro h
    obtain ⟨⟨lyears, lmonths, ldays, lweekdays⟩, hpattern, rfl, hd⟩ := h
    cases hpattern
    refine ⟨Pattern.lists_writeField_iff.2 ⟨lyears, rfl⟩,
      Pattern.lists_writeField_iff.2 ⟨lmonths, rfl⟩, Pattern.lists_writeField_iff.2 ⟨ldays, rfl⟩,
      Pattern.lists_writeField_iff.2 ⟨lweekdays, rfl⟩, ?_, periodsDenote_periodsField_iff.2 rfl⟩
    rw [formParts, hdescription]
    exact hd

theorem isField_periodsField (periods : List Period) :
    ∀ field ∈ periodsField periods, LineParts.IsField field := by
  cases periods with
  | nil => exact nofun
  | cons p periods =>
    rintro _ ⟨⟩
    exact ⟨Faithful.writeList_ne_nil (List.cons_ne_nil p periods),
      fun _ => Faithful.of_mem_writeList⟩

/-- The periods after a blank close a description. -/
theorem closes_writeList (h : periods ≠ []) :
    Description.Closes ([' '] ++ (Written.writeList [','] periods ++ [])) := by
  have hlists := (Faithful.lists_writeList_iff h).2 ⟨fun _ _ => trivial, rfl⟩
  obtain ⟨h₁, h₂, m₁, m₂, text, heq, d₁, d₂, d₃, d₄⟩ :=
    Description.startsPeriod_iff.1 (Period.startsPeriod_of_lists hlists)
  rw [heq]
  exact .period (by decide) d₁ d₂ d₃ d₄

theorem tail_writeTail (hcut : ∀ text ∈ description, Description.isCut text.toList = false) :
    LineParts.Tail (description.map String.toList) (periodsField periods)
      (writeTail description periods) := by
  have hnil : Text.AllBlank [] := nofun
  have hgap : Text.IsGap [' '] := ⟨by simp, by decide⟩
  have hend : LineParts.IsEnd [] := .blank nofun
  have hends {text : String} {rest : List Char} (h : text ∈ description) :
      ¬ Description.EndsWithin text.toList rest := by
    rw [Description.endsWithin_iff_isCut, hcut text h]
    exact Bool.false_ne_true
  have hfield := isField_periodsField periods
  cases description with
  | none =>
    cases periods with
    | nil => exact .bare hend
    | cons p periods =>
      have h : LineParts.Tail none _ _ := .parts hgap hnil hfield hend nofun
      simpa [LineParts.bracketed, periodsField, writeTail] using h
  | some text =>
    cases periods with
    | nil =>
      have h : LineParts.Tail text.toList _ _ := .parts hgap hnil hfield hend (by
        rintro _ ⟨⟩
        exact ⟨.lineEnd hend, hends rfl⟩)
      simpa [LineParts.bracketed, periodsField, writeTail, Description.write] using h
    | cons p periods =>
      have h : LineParts.Tail text.toList _ _ := .parts hgap hgap.2 hfield hend (by
        rintro _ ⟨⟩
        exact ⟨closes_writeList (List.cons_ne_nil p periods), hends rfl⟩)
      simpa [LineParts.bracketed, periodsField, writeTail, Description.write] using h

/-- A form is laid out in its parts if the guard passes the description. -/
theorem layout_write (hcut : ∀ text ∈ description, Description.isCut text.toList = false) :
    LineParts.Layout (formParts pattern description periods)
      (pattern.write ++ writeTail description periods) := by
  have hlead : Text.AllBlank [] := nofun
  have hgap : Text.IsGap [' '] := ⟨by simp, by decide⟩
  refine .intro hlead (Pattern.isField_writeField _) hgap
    (Pattern.isField_writeField _) hgap (Pattern.isField_writeField _) hgap
    (Pattern.isField_writeField _) (tail_writeTail hcut) ?_
  simp [Pattern.write, List.intercalate, formParts]

theorem head?_ne_of_mem_periodsField : ∀ field ∈ periodsField periods, field.head? ≠ some '[' := by
  intro field hfield
  have hdenote := periodsDenote_periodsField_iff.2 (Eq.refl periods)
  rw [Option.mem_def.1 hfield, LineParts.periodsDenote_some_iff] at hdenote
  exact LineParts.head?_ne_of_lists hdenote

/-- A form is read in the parts in which it was written if the guard passes the description. -/
theorem read?_write_eq_some_formParts_iff :
    LineParts.read? (pattern.write ++ writeTail description periods) =
        some (formParts pattern description periods) ↔
      ∀ text ∈ description, Description.isCut text.toList = false := by
  constructor
  · intro h text htext
    exact (LineParts.layout_of_read? h).isCut_eq_false text.toList
      (Option.mem_map_of_mem String.toList htext)
  · intro hcut
    exact LineParts.read?_of_layout (layout_write hcut) fun _ => head?_ne_of_mem_periodsField

theorem parse?_write_eq_some_iff
    (hcut : ∀ text ∈ description, Description.isCut text.toList = false) :
    parse? Rule (String.ofList (pattern.write ++ writeTail description periods)) = some r ↔
      pattern.IsLegible ∧ r.pattern = pattern.filled ∧ r.periods = periods ∧
        r.descriptionText = Description.unlessBlank description := by
  rw [parse?, String.toList_ofList, read?_eq_some_iff,
    read?_write_eq_some_formParts_iff.2 hcut]
  simp only [Option.some.injEq, exists_eq_left', denotes_formParts_iff]

theorem unlessBlank_descriptionText (r : Rule) :
    Description.unlessBlank r.descriptionText = r.descriptionText := by
  rw [descriptionText]
  cases r.description with
  | none => rfl
  | some d => exact Description.unlessBlank_of_not_allBlank d.notBlank

theorem isCut_of_mem_descriptionText :
    ∀ text ∈ r.descriptionText, Description.isCut text.toList = false := by
  intro text htext
  obtain ⟨d, -, rfl⟩ := Option.map_eq_some_iff.1 htext
  exact d.notCut

theorem description_eq_of_descriptionText_eq (h : r.descriptionText = s.descriptionText) :
    r.description = s.description :=
  Option.map_injective (fun _ _ h => by rwa [Description.mk.injEq]) h

theorem eq_of_descriptionText (hpattern : r.pattern = s.pattern) (hperiods : r.periods = s.periods)
    (hdescription : r.descriptionText = s.descriptionText) : r = s := by
  rw [Rule.mk.injEq]
  exact ⟨hpattern, description_eq_of_descriptionText_eq hdescription, hperiods⟩

/-- A rule is read back from its form, its empty lists filled, if its numbers can be read. -/
theorem parse?_text_eq_some_iff :
    parse? Rule r.text = some s ↔ r.pattern.IsLegible ∧ s = r.filled := by
  rw [text, write, parse?_write_eq_some_iff isCut_of_mem_descriptionText,
    unlessBlank_descriptionText]
  refine and_congr_right fun _ => ?_
  constructor
  · intro h
    obtain ⟨hpattern, hperiods, hdescription⟩ := h
    exact eq_of_descriptionText hpattern hperiods hdescription
  · rintro rfl
    exact ⟨rfl, rfl, rfl⟩

theorem not_allBlank_text (r : Rule) : ¬ Text.AllBlank r.text.toList := by
  obtain ⟨hne, hfield⟩ := Pattern.isField_writeField r.pattern.years
  obtain ⟨c, hc⟩ := List.exists_mem_of_ne_nil _ hne
  have hmem : c ∈ r.text.toList := by
    simp [text, write, Pattern.write, List.intercalate, hc]
  exact Text.not_allBlank_iff.2 ⟨c, hmem, (hfield c hc).1⟩

theorem isRead_of_parse? {line : String} (h : parse? Rule line = some r) : r.pattern.IsRead := by
  obtain ⟨p, -, hdenotes⟩ := read?_eq_some_iff.1 h
  exact Pattern.isRead_iff.2 ⟨⟨_, hdenotes.years⟩, ⟨_, hdenotes.months⟩, ⟨_, hdenotes.daysOfMonth⟩,
    ⟨_, hdenotes.daysOfWeek⟩⟩

theorem parse?_text_of_isRead (h : r.pattern.IsRead) : parse? Rule r.text = some r := by
  refine parse?_text_eq_some_iff.2 ⟨h.isLegible, ?_⟩
  rw [filled, h.filled_eq]

/-- The form of a rule that was read is a normal form: it denotes the rule, and it is the form of no
other rule that was read. -/
theorem text_normal_form {line : String} (h : parse? Rule line = some r) :
    parse? Rule r.text = some r ∧ (parse? Rule r.text).map text = some r.text ∧
      ∀ line' s, parse? Rule line' = some s → (r = s ↔ r.text = s.text) := by
  have hr := parse?_text_of_isRead (isRead_of_parse? h)
  refine ⟨hr, by rw [hr, Option.map_some], ?_⟩
  intro line' s h'
  have hs := parse?_text_of_isRead (isRead_of_parse? h')
  constructor
  · rintro rfl
    rfl
  · intro htext
    rw [htext, hs] at hr
    exact (Option.some.inj hr).symm

/-- Blanks and a comment are dropped, an interval of all values is written `*`, and the brackets in
the description stay. -/
theorem text_normal_form_brackets :
    ∃ r, parse? Rule " * 1..12  1..31 * [[a]]b]]08:00-24:00 # x" = some r ∧
      r.text = "* * * * [[a]]b]] 08:00-24:00" ∧ parse? Rule r.text = some r ∧
        (parse? Rule r.text).map text = some r.text ∧
          ∀ line' s, parse? Rule line' = some s → (r = s ↔ r.text = s.text) := by
  have hparts : LineParts.read? " * 1..12  1..31 * [[a]]b]]08:00-24:00 # x".toList =
      some ⟨['*'], "1..12".toList, "1..31".toList, ['*'], some "a]]b".toList,
        some "08:00-24:00".toList⟩ := by
    decide +kernel
  have hread : parse? Rule " * 1..12  1..31 * [[a]]b]]08:00-24:00 # x" =
      some ⟨(default : Pattern).filled, some ⟨"a]]b", by decide, by decide, by decide⟩,
        [⟨⟨480, by decide⟩, Time.endOfDay, by decide, by decide⟩]⟩ := by
    refine read?_eq_some_iff.2 ⟨_, hparts, ?_, ?_, ?_, ?_, by decide, .field ?_⟩
    · exact ⟨[['*']], ⟨by decide, by decide, rfl⟩, .cons (by decide +kernel) .nil⟩
    · exact ⟨["1..12".toList], ⟨by decide, by decide, rfl⟩, .cons (by decide +kernel) .nil⟩
    · exact ⟨["1..31".toList], ⟨by decide, by decide, rfl⟩, .cons (by decide +kernel) .nil⟩
    · exact ⟨[['*']], ⟨by decide, by decide, rfl⟩, .cons (by decide +kernel) .nil⟩
    · exact ⟨["08:00-24:00".toList], ⟨by decide, by decide, rfl⟩, .cons (by decide +kernel) .nil⟩
  exact ⟨_, hread, by decide +kernel, text_normal_form hread⟩

theorem parse_text_of_not_isLegible (h : ¬ r.pattern.IsLegible) :
    parse Rule r.text = .error (.malformed "day rule" r.text) := by
  have hnone : parse? Rule r.text = none := by
    refine Option.eq_none_iff_forall_ne_some.2 fun s hs => ?_
    exact h (parse?_text_eq_some_iff.1 hs).1
  rw [parse, if_neg r.not_allBlank_text, hnone]
  rfl

/-- A rule comes back from its form, its empty lists filled, just when all its numbers can be read;
otherwise its form is refused. -/
theorem parse_text_eq_ok_filled_iff (r : Rule) :
    (parse Rule r.text = .ok r.filled ↔ r.pattern.IsLegible) ∧
      (¬ r.pattern.IsLegible → parse Rule r.text = .error (.malformed "day rule" r.text)) := by
  refine ⟨?_, parse_text_of_not_isLegible⟩
  rw [parse_eq_ok_iff, parse?_text_eq_some_iff]
  simp only [r.not_allBlank_text, not_false_eq_true, and_true, true_and]

/-- The rule of a year before the year 0 is made, but its form is refused. -/
theorem parse_text_negative_year :
    ∃ years, YearSelector.ofInterval ⟨some (-5), some (-5)⟩ = .ok years ∧
      ∃ r, ofParts ⟨[years], [], [], []⟩ none [] = .ok r ∧ r.text = "-5 * * *" ∧
        parse Rule r.text = .error (.malformed "day rule" "-5 * * *") := by
  let interval : Interval .years :=
    { bounds := ⟨some (-5), some (-5)⟩
      lower_mem := fun _ _ => ⟨nofun, nofun⟩
      upper_mem := fun _ _ => ⟨nofun, nofun⟩
      lower_open := nofun
      upper_open := nofun
      ordered := by decide }
  let r : Rule := ⟨⟨[.interval interval], [], [], []⟩, none, []⟩
  have htext : r.text = "-5 * * *" := by decide +kernel
  refine ⟨.interval interval, rfl, r, rfl, htext, ?_⟩
  rw [← htext]
  exact parse_text_of_not_isLegible (by decide)

end Rule

end Workdays
