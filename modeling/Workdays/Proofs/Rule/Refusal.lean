import Workdays.Proofs.Rule.Guard

/-!
# Why a line is refused

A line that cannot be split into parts has no structure. The parts of any other line pass six
checks, in a fixed order, and the first that fails is the only one that is told of.

## Main definitions

* `LineParts.Splits`: the parts into which the structure of a line is split.
* `Stage`: a check with the message of its failure.
* `LineParts.stages`: the checks on the parts of a line, in their order.
* `FirstFault`: what is told of a line that is refused.
-/

namespace Workdays

/-- A check with the message of its failure. -/
structure Stage where
  IsPassed : Prop
  message : String

namespace Stage

/-- The message is that of the first check that fails. -/
inductive FirstFails : List Stage → String → Prop
  | here {stage : Stage} {rest : List Stage} :
      ¬ stage.IsPassed → FirstFails (stage :: rest) stage.message
  | later {stage : Stage} {rest : List Stage} {message : String} :
      stage.IsPassed → FirstFails rest message → FirstFails (stage :: rest) message

/-- Each segment of the field is a selector of the kind. -/
def field (σ : Type) [Written σ] (kind : String) (cs : List Char) : Stage where
  IsPassed := ∃ selectors : List σ, Written.Lists cs selectors
  message := s!"Invalid {kind} in day rule: `{String.ofList cs}`"

/-- Each segment of the field is a period, if there is a field. -/
def periods (field : Option (List Char)) : Stage where
  IsPassed := ∀ cs ∈ field, ∃ periods : List Period, Written.Lists cs periods
  message := s!"Invalid working periods in day rule: `{String.ofList (field.getD [])}`"

/-- The description is blank or stands on one line, if there is one. -/
def description (text : Option (List Char)) : Stage where
  IsPassed := ∀ cs ∈ text, Text.AllBlank cs ∨ '\n' ∉ cs ∧ '\r' ∉ cs
  message := "Invalid day rule: invalid argument: a description can't span over multiple lines"

end Stage

namespace LineParts

/-- The line has the parts, and a description is taken for one. -/
def Splits (p : LineParts) (line : List Char) : Prop :=
  Layout p line ∧ (p.description = none → ¬ Describes line)

/-- The checks on the parts of a line, in their order. -/
def stages (p : LineParts) : List Stage :=
  [.field YearSelector "year matcher" p.year,
    .field (Selector .months) "month matcher" p.month,
    .field (Selector .daysOfMonth) "day of month matcher" p.dayOfMonth,
    .field (Selector .daysOfWeek) "day of week matcher" p.dayOfWeek,
    .periods p.periods,
    .description p.description]

end LineParts

/-- The message is what is told of the line: that it has no structure, or that of the first check
that its parts fail. -/
inductive FirstFault (line : List Char) : String → Prop
  | layout : (∀ p, ¬ LineParts.Splits p line) →
      FirstFault line s!"Invalid structure for day rule `{String.ofList line}`"
  | stage {p : LineParts} {message : String} : p.Splits line →
      Stage.FirstFails p.stages message → FirstFault line message

/-! ## One check after the other -/

/-- The result is a reason with the message. -/
def TellsOf {α : Type} (x : Except Rejection α) (message : String) : Prop :=
  ∃ reason, x = .error reason ∧ reason.message = message

theorem tellsOf_error_iff {α : Type} {reason : Rejection} {message : String} :
    TellsOf (.error reason : Except Rejection α) message ↔ message = reason.message := by
  constructor
  · rintro ⟨_, ⟨⟩, rfl⟩
    rfl
  · rintro rfl
    exact ⟨reason, rfl, rfl⟩

theorem not_tellsOf_ok {α : Type} {a : α} {message : String} :
    ¬ TellsOf (.ok a : Except Rejection α) message := by
  rintro ⟨_, ⟨⟩, -⟩

namespace Stage

variable {α β : Type} {x : Except Rejection α} {stage : Stage} {rest : List Stage}
  {message : String}

theorem firstFails_cons_iff :
    FirstFails (stage :: rest) message ↔
      ¬ stage.IsPassed ∧ message = stage.message ∨ stage.IsPassed ∧ FirstFails rest message := by
  constructor
  · intro h
    cases h with
    | here hfails => exact .inl ⟨hfails, rfl⟩
    | later hpassed hrest => exact .inr ⟨hpassed, hrest⟩
  · intro h
    obtain ⟨hfails, rfl⟩ | ⟨hpassed, hrest⟩ := h
    · exact .here hfails
    · exact .later hpassed hrest

/-- The result is a value when the check is passed, and otherwise a reason with its message. -/
structure Decides (stage : Stage) (x : Except Rejection α) : Prop where
  isPassed {a : α} : x = .ok a → stage.IsPassed
  fails {reason : Rejection} :
    x = .error reason → ¬ stage.IsPassed ∧ reason.message = stage.message

theorem Decides.tellsOf_bind_iff (h : stage.Decides x) {f : α → Except Rejection β}
    (hrest : ∀ a, x = .ok a → (TellsOf (f a) message ↔ FirstFails rest message)) :
    TellsOf (x >>= f) message ↔ FirstFails (stage :: rest) message := by
  rw [firstFails_cons_iff]
  cases hx : x with
  | ok a =>
    have hpassed := h.isPassed hx
    simp only [hpassed, not_true_eq_false, false_and, true_and, false_or]
    exact hrest a hx
  | error reason =>
    obtain ⟨hfails, htold⟩ := h.fails hx
    simp only [hfails, not_false_eq_true, true_and, false_and, or_false, ← htold]
    exact tellsOf_error_iff

theorem Decides.tellsOf_iff (h : stage.Decides x) :
    TellsOf x message ↔ FirstFails [stage] message := by
  have hlast (a : α) (_ : x = .ok a) :
      TellsOf (Except.ok a : Except Rejection α) message ↔ FirstFails [] message :=
    iff_of_false not_tellsOf_ok nofun
  have hbind := h.tellsOf_bind_iff hlast
  have hpure : (x >>= Except.ok) = x := by cases x <;> rfl
  rwa [hpure] at hbind

theorem decides_field (σ : Type) [Written σ] (cs : List Char) :
    (field σ (Written.kind σ) cs).Decides (Rule.readField σ cs) where
  isPassed h := ⟨_, Rule.readField_eq_ok_iff.1 h⟩
  fails h := by
    constructor
    · rintro ⟨selectors, hselectors⟩
      cases h.symm.trans (Rule.readField_eq_ok_iff.2 hselectors)
    · unfold Rule.readField at h
      split at h <;> cases h
      rfl

theorem decides_periods (cs : Option (List Char)) :
    (periods cs).Decides (Rule.readPeriods cs) where
  isPassed h := by
    rintro _ ⟨⟩
    exact ⟨_, LineParts.periodsDenote_some_iff.1 (Rule.readPeriods_eq_ok_iff.1 h)⟩
  fails h := by
    cases cs with
    | none => cases h
    | some cs =>
      constructor
      · intro hpassed
        obtain ⟨periods, hperiods⟩ := hpassed cs rfl
        cases h.symm.trans (Rule.readPeriods_eq_ok_iff.2 (.field hperiods))
      · simp only [Rule.readPeriods] at h
        split at h <;> cases h
        rfl

end Stage

/-- Brackets that would end the description have ended it when the line was split, so that line
breaks are all that is left to refuse. -/
theorem Description.ofText_eq_error_iff_of_isCut {cs : List Char} {fault : DescriptionFault}
    (hcut : isCut cs = false) :
    ofText (String.ofList cs) = .error fault ↔
      ¬ (Text.AllBlank cs ∨ '\n' ∉ cs ∧ '\r' ∉ cs) ∧ fault = .severalLines := by
  rw [← String.toList_ofList (l := cs)] at hcut
  by_cases hblank : Text.AllBlank cs
  · have hnone : ofText (String.ofList cs) = .ok none := dif_pos (by rwa [String.toList_ofList])
    simp [hnone, hblank]
  · rw [ofText_eq_error_iff (by rwa [String.toList_ofList]) hcut, String.toList_ofList]
    simp only [hblank, false_or, not_and_or, not_not]
    exact and_comm

namespace Stage

theorem decides_description {text : Option (List Char)} (pattern : Pattern)
    (periods : List Period) (hcut : ∀ cs ∈ text, Description.isCut cs = false) :
    (description text).Decides
      ((Rule.ofParts pattern (text.map String.ofList) periods).mapError .description) := by
  cases text with
  | none => exact ⟨fun _ => nofun, nofun⟩
  | some cs =>
    have hpassed : (description (some cs)).IsPassed ↔
        Text.AllBlank cs ∨ '\n' ∉ cs ∧ '\r' ∉ cs := by
      simp [description]
    have hrefused {fault : DescriptionFault} : Description.ofText (String.ofList cs) =
        .error fault ↔ ¬ (description (some cs)).IsPassed ∧ fault = .severalLines := by
      rw [hpassed]
      exact Description.ofText_eq_error_iff_of_isCut (hcut cs rfl)
    constructor
    · intro r h
      rw [mapError_eq_ok_iff, Option.map_some, Rule.ofParts, map_eq_ok_iff] at h
      obtain ⟨_, hok, -⟩ := h
      by_contra hfails
      cases hok.symm.trans (hrefused.2 ⟨hfails, rfl⟩)
    · intro reason h
      rw [mapError_eq_error_iff] at h
      obtain ⟨fault, hfault, rfl⟩ := h
      rw [Option.map_some, Rule.ofParts, map_eq_error_iff, hrefused] at hfault
      obtain ⟨hfails, rfl⟩ := hfault
      exact ⟨hfails, rfl⟩

end Stage

/-! ## Lines -/

namespace Rule

variable {p : LineParts} {line : List Char} {message : String}

theorem tellsOf_ofLineParts_iff (hcut : ∀ cs ∈ p.description, Description.isCut cs = false) :
    TellsOf (ofLineParts p) message ↔ Stage.FirstFails p.stages message := by
  refine (Stage.decides_field YearSelector p.year).tellsOf_bind_iff fun _ _ => ?_
  refine (Stage.decides_field (Selector .months) p.month).tellsOf_bind_iff fun _ _ => ?_
  refine (Stage.decides_field (Selector .daysOfMonth) p.dayOfMonth).tellsOf_bind_iff fun _ _ => ?_
  refine (Stage.decides_field (Selector .daysOfWeek) p.dayOfWeek).tellsOf_bind_iff fun _ _ => ?_
  refine (Stage.decides_periods p.periods).tellsOf_bind_iff fun _ _ => ?_
  exact (Stage.decides_description _ _ hcut).tellsOf_iff

/-- A line is refused for its first fault. -/
theorem tellsOf_ofLine_iff : TellsOf (ofLine line) message ↔ FirstFault line message := by
  unfold ofLine
  cases hread : LineParts.read? line with
  | none =>
    have hsplits (p : LineParts) : ¬ p.Splits line := by
      intro hp
      cases hread.symm.trans (LineParts.read?_eq_some_iff_layout.2 hp)
    rw [tellsOf_error_iff]
    constructor
    · rintro rfl
      exact .layout hsplits
    · intro h
      cases h with
      | layout => rfl
      | stage hp => exact absurd hp (hsplits _)
  | some p =>
    have hsplits := LineParts.read?_eq_some_iff_layout.1 hread
    rw [tellsOf_ofLineParts_iff hsplits.1.isCut_eq_false]
    constructor
    · exact .stage hsplits
    · intro h
      cases h with
      | layout hnone => exact absurd hsplits (hnone p)
      | stage hq hfails =>
        have hq := LineParts.read?_eq_some_iff_layout.2 hq
        obtain rfl := Option.some.inj (hread.symm.trans hq)
        exact hfails

theorem firstFault_iff_of_error {reason : Rejection} (h : ofLine line = .error reason) :
    FirstFault line message ↔ message = reason.message := by
  rw [← tellsOf_ofLine_iff, h]
  exact tellsOf_error_iff

theorem not_firstFault_of_ok {r : Rule} (h : ofLine line = .ok r) : ¬ FirstFault line message := by
  rw [← tellsOf_ofLine_iff, h]
  exact not_tellsOf_ok

end Rule

end Workdays
