import Workdays.Calendar.Reader
import Workdays.Proofs.Result
import Workdays.Proofs.Rule.Layout
import Workdays.Proofs.Text.Lines

/-!
# Reading calendars line by line

A calendar is read when each of its lines is a rule, is blank or is a comment, and then it has the
rules of its lines in order. Otherwise the first line that is none of these is refused, under its
number among all lines and as no rule, whichever part of it is at fault.

## Main definitions

* `Calendar.ruleOf`: the rule that stands on a line.
* `Calendar.IsReadable`: the lines that a calendar can have.
* `Calendar.readFrom`: the rules that stand on lines, numbered from a given number.
-/

namespace Workdays

instance : DecidablePred LineParts.IsEnd := fun _ => decidable_of_iff _ LineParts.isLineEnd_iff

namespace Calendar

open LineParts (IsEnd)

variable {text : String} {line : List Char} {lines : List (List Char)} {rules : List Rule}
  {c : Calendar} {e : CalendarError} {k : Nat}

def ruleOf (line : List Char) : Except ReadError Rule := Workdays.parse Rule (String.ofList line)

/-- The line is blank, a comment or a rule. -/
def IsReadable (line : List Char) : Prop := IsEnd line ∨ ∃ r, ruleOf line = .ok r

/-- The rules that stand on lines, the first of which has the given number. -/
def readFrom (k : Nat) (lines : List (List Char)) : Except CalendarError (List Rule) :=
  (readRules (numbered k lines)).result

/-! ## One line -/

theorem isRuleLine_iff : isRuleLine line = true ↔ ¬ IsEnd line := by
  rw [← LineParts.isLineEnd_iff, isRuleLine, LineParts.isLineEnd]
  cases Text.dropBlanks line <;> simp

/-- A line that is neither blank nor a comment is refused for one reason only. -/
theorem ruleOf_eq_error_iff (h : ¬ IsEnd line) {source : ReadError} :
    ruleOf line = .error source ↔ (∀ r, ruleOf line ≠ .ok r) ∧
      source = .malformed "day rule" (String.ofList line) := by
  have hblank : ¬ Text.AllBlank (String.ofList line).toList := by
    rw [String.toList_ofList]
    exact fun hblank => h (.blank hblank)
  have hkind : Written.kind Rule = "day rule" := rfl
  have hok {r : Rule} : Workdays.parse Rule (String.ofList line) = .ok r ↔
      parse? Rule (String.ofList line) = some r := by
    rw [parse_eq_ok_iff, and_iff_right hblank]
  rw [ruleOf, parse_eq_error_iff, Option.eq_none_iff_forall_ne_some]
  simp only [hblank, hkind, hok, ne_eq, false_and, false_or, not_false_eq_true, true_and]

/-- Whichever part of a line is at fault, the line is no rule. -/
theorem ruleOf_of_rejected {reason : Rejection} (h : ¬ IsEnd line)
    (hreason : Rule.ofLine line = .error reason) :
    ruleOf line = .error (.malformed "day rule" (String.ofList line)) := by
  refine (ruleOf_eq_error_iff h).2 ⟨fun r hr => ?_, rfl⟩
  have hread : (Rule.ofLine (String.ofList line).toList).toOption = some r :=
    (Workdays.parse_eq_ok_iff.1 hr).2
  rw [String.toList_ofList, hreason] at hread
  cases hread

theorem numbered_cons_of_isEnd (h : IsEnd line) :
    numbered k (line :: lines) = numbered (k + 1) lines := by
  have hline : ¬ isRuleLine line := by
    rw [isRuleLine_iff]
    exact not_not_intro h
  rw [numbered, List.zipIdx_cons, List.filterMap_cons]
  simp only [hline]
  rfl

theorem numbered_cons_of_not (h : ¬ IsEnd line) :
    numbered k (line :: lines) = (k, line) :: numbered (k + 1) lines := by
  have hline : isRuleLine line := isRuleLine_iff.2 h
  rw [numbered, List.zipIdx_cons, List.filterMap_cons]
  simp only [hline, if_true]
  rfl

@[simp] theorem readFrom_nil : readFrom k [] = .ok [] := rfl

theorem readFrom_cons_of_isEnd (h : IsEnd line) :
    readFrom k (line :: lines) = readFrom (k + 1) lines := by
  rw [readFrom, numbered_cons_of_isEnd h, readFrom]

theorem readFrom_cons_of_not (h : ¬ IsEnd line) :
    readFrom k (line :: lines) = (do
      let rule ← (ruleOf line).mapError (.rule k)
      let rules ← readFrom (k + 1) lines
      pure (rule :: rules)) := by
  rw [readFrom, numbered_cons_of_not h, readRules]
  have hresult : (Rule.parseLogged (String.ofList line)).result = ruleOf line := rfl
  rcases hlogged : Rule.parseLogged (String.ofList line) with ⟨e | rule, events⟩ <;>
    rw [hlogged] at hresult <;> rw [← hresult]
  · rfl
  · change Except.map _ (readFrom (k + 1) lines) = (readFrom (k + 1) lines >>= _)
    cases readFrom (k + 1) lines <;> rfl

/-! ## All lines -/

/-- The calendar of a text has the rules that stand on its lines, numbered from 1. -/
theorem parse_eq (text : String) :
    parse text = (readFrom 1 (Text.lines text.toList)).map fun rules => ⟨rules, .nonWorking⟩ := by
  change (parseLogged text).result = (readRules (ruleLines text.toList)).result.map _
  rw [parseLogged]
  rcases readRules (ruleLines text.toList) with ⟨_ | _, _⟩ <;> rfl

theorem readFrom_eq_ok_iff :
    readFrom k lines = .ok rules ↔
      (lines.filter fun line => ¬ IsEnd line).map ruleOf = rules.map .ok := by
  induction lines generalizing k rules with
  | nil => cases rules <;> simp
  | cons line lines ih =>
    by_cases h : IsEnd line
    · rw [readFrom_cons_of_isEnd h, ih, List.filter_cons_of_neg (by simpa using h)]
    · rw [readFrom_cons_of_not h, List.filter_cons_of_pos (by simpa using h), List.map_cons]
      simp only [bind_eq_ok_iff, mapError_eq_ok_iff, ih, pure_eq_ok_iff]
      cases rules <;> simp

/-- Reading stops at the first line that is not readable. -/
theorem readFrom_eq_error_iff :
    readFrom k lines = .error e ↔ ∃ before line after, lines = before ++ line :: after ∧
      (∀ l ∈ before, IsReadable l) ∧ ¬ IsReadable line ∧
        e = .rule (k + before.length) (.malformed "day rule" (String.ofList line)) := by
  induction lines generalizing k with
  | nil => simp
  | cons line lines ih =>
    have hnumber (before : List (List Char)) :
        k + 1 + before.length = k + (line :: before).length := by
      rw [List.length_cons]
      omega
    rw [exists_cons_eq_append_cons_iff]
    by_cases h : IsEnd line
    · have hline : IsReadable line := .inl h
      rw [readFrom_cons_of_isEnd h, ih]
      simp [hline, hnumber]
    · rw [readFrom_cons_of_not h]
      simp only [bind_eq_error_iff, mapError_eq_error_iff, mapError_eq_ok_iff, ih, pure_ne_error,
        ruleOf_eq_error_iff h, hnumber, List.forall_mem_cons]
      have hline : IsReadable line ↔ ∃ r, ruleOf line = .ok r := or_iff_right h
      grind

/-! ## Texts -/

theorem parse_eq_ok_iff :
    parse text = .ok c ↔ c.unmatched = .nonWorking ∧
      ((Text.lines text.toList).filter fun line => ¬ IsEnd line).map ruleOf =
        c.rules.map .ok := by
  rw [parse_eq, map_eq_ok_iff]
  simp only [readFrom_eq_ok_iff]
  obtain ⟨rules, unmatched⟩ := c
  constructor
  · intro h
    obtain ⟨rules, hrules, ⟨⟩⟩ := h
    exact ⟨rfl, hrules⟩
  · intro h
    obtain ⟨rfl, hrules⟩ := h
    exact ⟨rules, hrules, rfl⟩

theorem parse_eq_error_iff :
    parse text = .error e ↔ ∃ before line after,
      Text.lines text.toList = before ++ line :: after ∧
        (∀ l ∈ before, IsReadable l) ∧ ¬ IsReadable line ∧
          e = .rule (before.length + 1) (.malformed "day rule" (String.ofList line)) := by
  rw [parse_eq, map_eq_error_iff, readFrom_eq_error_iff]
  simp only [Nat.add_comm]

theorem exists_parse_eq_ok_iff :
    (∃ c, parse text = .ok c) ↔ ∀ line ∈ Text.lines text.toList, IsReadable line := by
  let ruleLines := (Text.lines text.toList).filter fun line => ¬ IsEnd line
  calc (∃ c, parse text = .ok c)
    _ ↔ ∃ rules : List Rule, ruleLines.map ruleOf = rules.map .ok := by
      simp only [parse_eq_ok_iff]
      exact ⟨fun ⟨c, _, h⟩ => ⟨c.rules, h⟩, fun ⟨rules, h⟩ => ⟨⟨rules, .nonWorking⟩, rfl, h⟩⟩
    _ ↔ ∀ line ∈ ruleLines, ∃ r, ruleOf line = .ok r := exists_map_eq_map_ok_iff
    _ ↔ ∀ line ∈ Text.lines text.toList, IsReadable line := by
      simp [ruleLines, IsReadable, or_iff_not_imp_left]

/-- A text is a calendar when all its lines are readable, and has the rules that stand on them in
order. Otherwise its first line that is not readable is reported, by its number among all lines
and its text, and always as no rule. -/
theorem parse_stops_at_first_unreadable_line (text : String) :
    (∀ lines, Text.HasLines text.toList lines ↔ lines = Text.lines text.toList) ∧
    ((∃ c, parse text = .ok c) ↔ ∀ line ∈ Text.lines text.toList, IsReadable line) ∧
    (∀ c, parse text = .ok c ↔ c.unmatched = .nonWorking ∧
      ((Text.lines text.toList).filter fun line => ¬ IsEnd line).map ruleOf =
        c.rules.map .ok) ∧
    (∀ e, parse text = .error e ↔ ∃ before line after,
      Text.lines text.toList = before ++ line :: after ∧
        (∀ l ∈ before, IsReadable l) ∧ ¬ IsReadable line ∧
          e = .rule (before.length + 1) (.malformed "day rule" (String.ofList line))) ∧
    ∀ line reason, ¬ IsEnd line → Rule.ofLine line = .error reason →
      ruleOf line = .error (.malformed "day rule" (String.ofList line)) :=
  ⟨fun _ => Text.hasLines_iff, exists_parse_eq_ok_iff, fun _ => parse_eq_ok_iff,
    fun _ => parse_eq_error_iff, fun _ _ => ruleOf_of_rejected⟩

/-- The third line has all its parts, and only its description is refused. -/
theorem parse_stops_at_description :
    ¬ IsEnd "* * * * [[a\rb]]".toList ∧
      Rule.ofLine "* * * * [[a\rb]]".toList = .error (.description .severalLines) ∧
        parse "# x\r\n\n* * * * [[a\rb]]" =
          .error (.rule 3 (.malformed "day rule" "* * * * [[a\rb]]")) := by
  have hend : ¬ IsEnd "* * * * [[a\rb]]".toList := by decide +kernel
  have hrefused : Rule.ofLine "* * * * [[a\rb]]".toList = .error (.description .severalLines) := by
    decide +kernel
  have hlaw := parse_stops_at_first_unreadable_line "# x\r\n\n* * * * [[a\rb]]"
  have hline := hlaw.2.2.2.2 _ _ hend hrefused
  refine ⟨hend, hrefused, (hlaw.2.2.2.1 _).2
    ⟨["# x".toList, []], "* * * * [[a\rb]]".toList, [], by decide +kernel, ?_, ?_, rfl⟩⟩
  · have hfront : ∀ l ∈ ["# x".toList, []], IsEnd l := by decide +kernel
    exact fun l hl => .inl (hfront l hl)
  · rintro (h | ⟨r, hr⟩)
    · exact hend h
    · cases hline.symm.trans hr

end Calendar

end Workdays
