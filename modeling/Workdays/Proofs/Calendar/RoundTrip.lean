import Workdays.Proofs.Calendar.Reading
import Workdays.Proofs.Rule.OneLine

/-!
# Texts of calendars

The text of a calendar has one line for each rule, the form of the rule, and nothing else. It is
read back as the rules of the calendar just when each rule is one that was read before; which dates
without a rule are refused is not written.
-/

namespace Workdays.Calendar

variable {c : Calendar} {r : Rule} {line raw : String}

theorem lines_text (c : Calendar) : Text.lines c.text.toList = c.rules.map Rule.write := by
  have htext : c.text.toList = (c.rules.map Rule.write).flatMap fun line => line ++ ['\n'] := by
    rw [text, String.toList_ofList, write, List.flatMap_map]
  rw [htext]
  apply Text.lines_flatMap_newline
  intro line hline
  obtain ⟨r, -, rfl⟩ := List.mem_map.1 hline
  exact r.oneLine_write

/-- Every line of the text of a calendar has something to say. -/
theorem filter_lines_text (c : Calendar) :
    ((Text.lines c.text.toList).filter fun line => ¬ LineParts.IsEnd line) =
      c.rules.map Rule.write := by
  rw [lines_text, List.filter_eq_self]
  intro line hline
  obtain ⟨r, -, rfl⟩ := List.mem_map.1 hline
  exact decide_eq_true r.not_isEnd_write

theorem ruleOf_write_eq_ok_iff :
    ruleOf r.write = .ok r ↔ ∃ line, Workdays.parse Rule line = .ok r := by
  constructor
  · intro h
    exact ⟨_, h⟩
  · intro h
    obtain ⟨line, hline⟩ := h
    have hread := (Workdays.parse_eq_ok_iff.1 hline).2
    exact Workdays.parse_eq_ok_iff.2
      ⟨r.not_allBlank_text, Rule.parse?_text_of_isRead (Rule.isRead_of_parse? hread)⟩

/-- The rules of a calendar are read back when each of them was read from some line. -/
theorem parse_text_eq_ok_iff :
    parse c.text = .ok ⟨c.rules, .nonWorking⟩ ↔
      ∀ r ∈ c.rules, ∃ line, Workdays.parse Rule line = .ok r := by
  rw [parse_eq_ok_iff, and_iff_right rfl, filter_lines_text, List.map_map, List.map_inj_left]
  exact forall₂_congr fun r _ => ruleOf_write_eq_ok_iff

theorem exists_parse_of_mem_rules (h : parse raw = .ok c) (hr : r ∈ c.rules) :
    ∃ line, Workdays.parse Rule line = .ok r := by
  have hmem : (.ok r : Except ReadError Rule) ∈ c.rules.map .ok := List.mem_map_of_mem hr
  rw [← (parse_eq_ok_iff.1 h).2] at hmem
  obtain ⟨line, -, hline⟩ := List.mem_map.1 hmem
  exact ⟨_, hline⟩

/-- A text of rules that were read is read back as these rules, one on a line. So the text of a
calendar that was read is a normal form of it. -/
theorem text_reads_back :
    (∀ c, parse (text c) = .ok ⟨c.rules, .nonWorking⟩ ↔
      ∀ r ∈ c.rules, ∃ line, Workdays.parse Rule line = .ok r) ∧
    (∀ c, Text.lines (text c).toList = c.rules.map Rule.write) ∧
    ∀ raw c, parse raw = .ok c → parse c.text = .ok c := by
  refine ⟨fun c => parse_text_eq_ok_iff, lines_text, fun raw c h => ?_⟩
  have htext := parse_text_eq_ok_iff.2 fun r hr => exists_parse_of_mem_rules h hr
  rw [htext, ← (parse_eq_ok_iff.1 h).1]

/-- Comments, blank lines and line breaks of either kind are dropped, brackets and a `#` in
a description stay. -/
theorem text_reads_back_descriptions :
    ∃ c, parse "# x\n\n * * * 1..5 [[a]]b]]08:00-24:00 # y\r\n* 12 25..25 * [[ c # d]]" = .ok c ∧
      c.text = "* * * 1..5 [[a]]b]] 08:00-24:00\n* 12 25 * [[ c # d]]\n" ∧
        Text.lines c.text.toList = c.rules.map Rule.write ∧ parse c.text = .ok c := by
  have htext : (parse
      "# x\n\n * * * 1..5 [[a]]b]]08:00-24:00 # y\r\n* 12 25..25 * [[ c # d]]").map text =
        .ok "* * * 1..5 [[a]]b]] 08:00-24:00\n* 12 25 * [[ c # d]]\n" := by
    decide +kernel
  obtain ⟨c, hc, htext⟩ := map_eq_ok_iff.1 htext
  exact ⟨c, hc, htext, text_reads_back.2.1 c, text_reads_back.2.2 _ c hc⟩

end Workdays.Calendar
