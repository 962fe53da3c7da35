import Workdays.Proofs.Text.Gap
import Workdays.Rule.Line

/-!
# The end of a description

A description is closed by the first `]]` after which the line ends, or goes on with a comment or
with working periods. The guard on descriptions looks at the text alone, the reader of a line at all
that follows, and still they agree on where a description ends: the brackets that close it can be no
part of a comment or a period, so what stands behind them never matters.

## Main definitions

* `LineParts.IsEnd`: blanks, and perhaps a comment.
* `Description.Closes`: what can follow the `]]` that closes a description.
* `Description.EndsWithin`: an earlier `]]` closes the description.
-/

namespace Workdays

/-- Blanks, and perhaps a comment after them. -/
inductive LineParts.IsEnd : List Char → Prop
  | blank {gap : List Char} : Text.AllBlank gap → IsEnd gap
  | comment {gap text : List Char} : Text.AllBlank gap → IsEnd (gap ++ '#' :: text)

namespace Description

/-- Blanks and then the end of the line, a comment, or two digits, a colon, two digits and a
hyphen. -/
inductive Closes : List Char → Prop
  | lineEnd {rest : List Char} : LineParts.IsEnd rest → Closes rest
  | period {gap text : List Char} {h₁ h₂ m₁ m₂ : Char} : Text.AllBlank gap →
      h₁.isDigit → h₂.isDigit → m₁.isDigit → m₂.isDigit →
      Closes (gap ++ h₁ :: h₂ :: ':' :: m₁ :: m₂ :: '-' :: text)

/-- At a position in the text of a description, before the `]]` that is to close it, there is a `]]`
that closes it. -/
def EndsWithin (text rest : List Char) : Prop :=
  ∃ front back after, back ≠ [] ∧ text = front ++ back ∧
    back ++ ']' :: ']' :: rest = ']' :: ']' :: after ∧ Closes after

variable {cs rest text : List Char} {c : Char}

/-! ## What closes a description -/

theorem startsPeriod_iff :
    startsPeriod cs = true ↔ ∃ h₁ h₂ m₁ m₂ text,
      cs = h₁ :: h₂ :: ':' :: m₁ :: m₂ :: '-' :: text ∧
        h₁.isDigit ∧ h₂.isDigit ∧ m₁.isDigit ∧ m₂.isDigit := by
  constructor
  · intro h
    unfold startsPeriod at h
    split at h
    · next h₁ h₂ m₁ m₂ text =>
      simp only [Bool.and_eq_true] at h
      obtain ⟨⟨⟨d₁, d₂⟩, d₃⟩, d₄⟩ := h
      exact ⟨h₁, h₂, m₁, m₂, text, rfl, d₁, d₂, d₃, d₄⟩
    · cases h
  · intro h
    obtain ⟨h₁, h₂, m₁, m₂, text, rfl, d₁, d₂, d₃, d₄⟩ := h
    simp [startsPeriod, d₁, d₂, d₃, d₄]

theorem startsNextPart_iff :
    startsNextPart cs = true ↔ (∃ text, cs = '#' :: text) ∨ startsPeriod cs = true := by
  unfold startsNextPart
  split <;> simp_all

theorem closes_iff :
    Closes cs ↔ Text.dropBlanks cs = [] ∨ startsNextPart (Text.dropBlanks cs) = true := by
  have hhash : Text.isBlank '#' = false := by decide
  constructor
  · intro h
    obtain ⟨⟨hgap⟩ | ⟨hgap⟩⟩ | ⟨hgap, d₁, d₂, d₃, d₄⟩ := h
    · exact .inl (Text.dropBlanks_eq_nil hgap)
    · rw [Text.dropBlanks_append hgap, Text.dropBlanks_cons_of_not hhash]
      exact .inr rfl
    · rw [Text.dropBlanks_append hgap,
        Text.dropBlanks_cons_of_not (Text.isBlank_eq_false_of_isDigit d₁)]
      exact .inr (startsNextPart_iff.2 (.inr (startsPeriod_iff.2
        ⟨_, _, _, _, _, rfl, d₁, d₂, d₃, d₄⟩)))
  · obtain ⟨gap, hgap, hcs⟩ := Text.exists_eq_append_dropBlanks cs
    generalize Text.dropBlanks cs = next at hcs
    subst hcs
    intro h
    obtain rfl | h := h
    · rw [List.append_nil]
      exact .lineEnd (.blank hgap)
    · obtain ⟨text, rfl⟩ | h := startsNextPart_iff.1 h
      · exact .lineEnd (.comment hgap)
      · obtain ⟨h₁, h₂, m₁, m₂, text, rfl, d₁, d₂, d₃, d₄⟩ := startsPeriod_iff.1 h
        exact .period hgap d₁ d₂ d₃ d₄

theorem closed?_eq_some_iff :
    closed? cs = some rest ↔ cs = ']' :: ']' :: rest ∧ Closes rest := by
  rw [closed?, Option.filter_eq_some_iff, Bool.or_eq_true, List.isEmpty_iff, ← closes_iff]
  refine and_congr_left fun _ => ?_
  unfold afterBrackets?
  split <;> simp_all

/-- A closing bracket is no blank, and no part of a comment's mark or of a period. -/
theorem startsNextPart_append_bracket :
    startsNextPart (c :: cs ++ ']' :: rest) = startsNextPart (c :: cs) := by
  have hbracket : ∀ {d : Char}, d.isDigit → ']' ≠ d := by
    rintro d hd rfl
    cases hd
  rw [Bool.eq_iff_iff, startsNextPart_iff, startsNextPart_iff]
  apply or_congr (by simp)
  simp only [startsPeriod_iff]
  constructor
  · intro h
    obtain ⟨h₁, h₂, m₁, m₂, text, heq, d₁, d₂, d₃, d₄⟩ := h
    -- a bracket among the six characters of the period is no digit, no colon and no hyphen
    rcases cs with _ | ⟨a, _ | ⟨b, _ | ⟨d, _ | ⟨e, _ | ⟨f, cs⟩⟩⟩⟩⟩ <;>
      simp only [List.cons_append, List.nil_append, List.cons.injEq] at heq
    case cons.cons.cons.cons.cons =>
      obtain ⟨rfl, rfl, rfl, rfl, rfl, rfl, -⟩ := heq
      exact ⟨_, _, _, _, _, rfl, d₁, d₂, d₃, d₄⟩
    case nil => exact absurd heq.2.1 (hbracket d₂)
    case cons.cons.nil => exact absurd heq.2.2.2.1 (hbracket d₃)
    case cons.cons.cons.nil => exact absurd heq.2.2.2.2.1 (hbracket d₄)
    all_goals simp at heq
  · intro h
    obtain ⟨h₁, h₂, m₁, m₂, text, heq, hd⟩ := h
    exact ⟨h₁, h₂, m₁, m₂, text ++ ']' :: rest, by rw [heq]; rfl, hd⟩

/-- Whether a `]]` in a text closes it is decided before the next closing bracket. -/
theorem closes_append_bracket_iff :
    Closes (cs ++ ']' :: rest) ↔ startsNextPart (Text.dropBlanks cs) = true := by
  have hbracket : Text.isBlank ']' = false := by decide
  have hnext : startsNextPart (']' :: rest) = false := by
    rw [← Bool.not_eq_true, startsNextPart_iff, startsPeriod_iff]
    rintro (⟨text, h⟩ | ⟨h₁, h₂, m₁, m₂, text, h, d₁, -⟩) <;> cases h
    cases d₁
  obtain ⟨gap, hgap, hcs⟩ := Text.exists_eq_append_dropBlanks cs
  rw [closes_iff]
  cases hdrop : Text.dropBlanks cs with
  | nil =>
    rw [hdrop, List.append_nil] at hcs
    rw [hcs, Text.dropBlanks_append hgap, Text.dropBlanks_cons_of_not hbracket, hnext]
    simp [startsNextPart, startsPeriod]
  | cons c tail =>
    have hc := Text.isBlank_of_dropBlanks hdrop
    rw [hdrop] at hcs
    rw [hcs, List.append_assoc, Text.dropBlanks_append hgap, List.cons_append,
      Text.dropBlanks_cons_of_not hc, ← List.cons_append, startsNextPart_append_bracket]
    simp

/-! ## The guard and the reader -/

theorem isCut_iff :
    isCut cs = true ↔ ∃ front back, cs = front ++ ']' :: ']' :: back ∧
      startsNextPart (Text.dropBlanks back) = true := by
  induction cs with
  | nil => simp [isCut]
  | cons c cs ih =>
    rw [isCut, Bool.or_eq_true, ih]
    constructor
    · intro h
      obtain h | ⟨front, back, rfl, h⟩ := h
      · unfold afterBrackets? at h
        split at h
        · next back heq =>
          exact ⟨[], back, heq, h⟩
        · cases h
      · exact ⟨c :: front, back, rfl, h⟩
    · intro h
      obtain ⟨front, back, heq, h⟩ := h
      cases front with
      | nil =>
        rw [List.nil_append] at heq
        exact .inl (by simpa [heq, afterBrackets?] using h)
      | cons d front =>
        cases heq
        exact .inr ⟨front, back, rfl, h⟩

/-- A description ends early in a line just when the guard refuses it, whatever the line holds after
the description. -/
theorem endsWithin_iff_isCut : EndsWithin text rest ↔ isCut text = true := by
  rw [isCut_iff]
  constructor
  · intro h
    obtain ⟨front, back, after, hne, rfl, heq, hafter⟩ := h
    rcases back with _ | ⟨a, _ | ⟨b, back⟩⟩
    · contradiction
    -- the `]]` straddles the end: a bracket follows it, and that closes nothing
    · simp only [List.cons_append, List.nil_append, List.cons.injEq, true_and] at heq
      obtain ⟨rfl, rfl⟩ := heq
      have hnil : startsNextPart (Text.dropBlanks []) = true := closes_append_bracket_iff.1 hafter
      cases hnil
    · simp only [List.cons_append, List.cons.injEq] at heq
      obtain ⟨rfl, rfl, rfl⟩ := heq
      exact ⟨front, back, rfl, closes_append_bracket_iff.1 hafter⟩
  · intro h
    obtain ⟨front, back, rfl, h⟩ := h
    exact ⟨front, ']' :: ']' :: back, back ++ ']' :: ']' :: rest, by simp, rfl, rfl,
      closes_append_bracket_iff.2 h⟩

theorem endsWithin_cons_iff :
    EndsWithin (c :: text) rest ↔
      (closed? (c :: text ++ ']' :: ']' :: rest) ≠ none ∨ EndsWithin text rest) := by
  constructor
  · intro h
    obtain ⟨front, back, after, hne, heq, hback, hafter⟩ := h
    cases front with
    | nil =>
      rw [List.nil_append] at heq
      refine .inl (Option.ne_none_iff_exists'.2 ⟨after, ?_⟩)
      exact closed?_eq_some_iff.2 ⟨heq ▸ hback, hafter⟩
    | cons d front =>
      cases heq
      exact .inr ⟨front, back, after, hne, rfl, hback, hafter⟩
  · intro h
    obtain h | ⟨front, back, after, hne, rfl, hback, hafter⟩ := h
    · obtain ⟨after, h⟩ := Option.ne_none_iff_exists'.1 h
      obtain ⟨heq, hafter⟩ := closed?_eq_some_iff.1 h
      exact ⟨[], c :: text, after, by simp, rfl, heq, hafter⟩
    · exact ⟨c :: front, back, after, hne, rfl, hback, hafter⟩

end Description

namespace LineParts

variable {cs rest text : List Char}

/-- A description is taken up to the first `]]` that closes it. -/
theorem takeDescribed?_eq_some_iff :
    takeDescribed? cs = some (text, rest) ↔
      cs = text ++ ']' :: ']' :: rest ∧ Description.Closes rest ∧
        ¬ Description.EndsWithin text rest := by
  induction cs generalizing text with
  | nil => simp [takeDescribed?]
  | cons c cs ih =>
    have hnil : ∀ rest, ¬ Description.EndsWithin [] rest := by
      rintro rest ⟨front, back, after, hne, heq, -⟩
      exact hne (List.append_eq_nil_iff.1 heq.symm).2
    rw [takeDescribed?]
    cases hclosed : Description.closed? (c :: cs) with
    | some after =>
      obtain ⟨heq, hafter⟩ := Description.closed?_eq_some_iff.1 hclosed
      simp only [Option.some.injEq, Prod.mk.injEq]
      constructor
      · intro h
        obtain ⟨rfl, rfl⟩ := h
        exact ⟨heq, hafter, hnil _⟩
      · intro h
        obtain ⟨htext, hrest, hends⟩ := h
        cases text with
        | nil => simp_all
        | cons d text =>
          refine absurd (Description.endsWithin_cons_iff.2 (.inl ?_)) hends
          rw [← htext, hclosed]
          simp
    | none =>
      simp only [Option.map_eq_some_iff, Prod.exists, Prod.mk.injEq]
      constructor
      · intro h
        obtain ⟨text, rest, h, rfl, rfl⟩ := h
        obtain ⟨rfl, hrest, hends⟩ := ih.1 h
        refine ⟨rfl, hrest, fun h => ?_⟩
        obtain h | h := Description.endsWithin_cons_iff.1 h
        · exact h hclosed
        · exact hends h
      · intro h
        obtain ⟨htext, hrest, hends⟩ := h
        cases text with
        | nil =>
          rw [Description.closed?_eq_some_iff.2 ⟨htext, hrest⟩] at hclosed
          cases hclosed
        | cons d text =>
          cases htext
          refine ⟨text, rest, ih.2 ⟨rfl, hrest, fun h => hends ?_⟩, rfl, rfl⟩
          exact Description.endsWithin_cons_iff.2 (.inr h)

/-- There is a description to take where some `]]` closes one. -/
theorem exists_takeDescribed?_eq_some (text : List Char) (hrest : Description.Closes rest) :
    ∃ sides, takeDescribed? (text ++ ']' :: ']' :: rest) = some sides := by
  induction text with
  | nil =>
    have hclosed := Description.closed?_eq_some_iff.2 ⟨rfl, hrest⟩
    exact ⟨([], rest), by rw [List.nil_append, takeDescribed?, hclosed]⟩
  | cons c text ih =>
    obtain ⟨sides, hsides⟩ := ih
    rw [List.cons_append, takeDescribed?]
    cases Description.closed? (c :: (text ++ ']' :: ']' :: rest)) with
    | some after => exact ⟨_, rfl⟩
    | none => exact ⟨_, by rw [hsides, Option.map_some]⟩

end LineParts

end Workdays
