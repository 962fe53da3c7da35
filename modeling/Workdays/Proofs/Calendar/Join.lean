import Workdays.Proofs.Calendar.Reading

/-!
# Joining calendars

Two texts with a line break between them are read like each of them alone: the rules of the first
are followed by those of the second, and a line of the second that is refused has the lines up to
the break in front of it. Only a carriage return at the end of the first text would be taken for
a part of the break.
-/

namespace Workdays.Calendar

open LineParts (IsEnd)

variable {a b br : String} {ca cb : Calendar} {e : CalendarError}

/-- The lines of joined texts are those of either text with blank lines between them, and a line
feed ends each line up to the break. -/
theorem exists_lines_join (h : a.toList.getLast? ≠ some '\r') :
    ∃ gap, (∀ line ∈ gap, IsEnd line) ∧
      (Text.lines a.toList ++ gap).length = a.toList.count '\n' + 1 ∧
      ∀ br b : String, Text.IsBreak br.toList →
        Text.lines (a ++ br ++ b).toList = Text.lines a.toList ++ gap ++ Text.lines b.toList := by
  obtain ⟨gap, hgap, hlength, hbreak⟩ := Text.exists_lines_append_break h
  refine ⟨gap, fun line hline => ?_, hlength, fun br b hbr => ?_⟩
  · rw [hgap line hline]
    exact .blank nofun
  · rw [String.toList_append, String.toList_append, List.append_assoc]
    exact hbreak _ _ hbr

theorem parse_join_of_ok (h : a.toList.getLast? ≠ some '\r') (hbr : Text.IsBreak br.toList)
    (ha : parse a = .ok ca) (hb : parse b = .ok cb) :
    parse (a ++ br ++ b) = .ok ⟨ca.rules ++ cb.rules, .nonWorking⟩ := by
  obtain ⟨gap, hgap, -, hlines⟩ := exists_lines_join h
  have hnone : (gap.filter fun line => ¬ IsEnd line) = [] := by simpa using hgap
  apply parse_eq_ok_iff.2
  rw [hlines br b hbr, List.filter_append, List.filter_append, hnone, List.append_nil,
    List.map_append, (parse_eq_ok_iff.1 ha).2, (parse_eq_ok_iff.1 hb).2, List.map_append]
  exact ⟨rfl, rfl⟩

theorem parse_join_of_error_left (h : a.toList.getLast? ≠ some '\r') (hbr : Text.IsBreak br.toList)
    (b : String) (ha : parse a = .error e) : parse (a ++ br ++ b) = .error e := by
  obtain ⟨gap, -, -, hlines⟩ := exists_lines_join h
  obtain ⟨before, line, after, heq, hbefore, hline, he⟩ := parse_eq_error_iff.1 ha
  refine parse_eq_error_iff.2 ⟨before, line, after ++ gap ++ Text.lines b.toList, ?_, hbefore,
    hline, he⟩
  rw [hlines br b hbr, heq]
  simp

theorem parse_join_of_error_right (h : a.toList.getLast? ≠ some '\r')
    (hbr : Text.IsBreak br.toList) (ha : parse a = .ok ca) (hb : parse b = .error e) :
    ∃ n source, e = .rule n source ∧
      parse (a ++ br ++ b) = .error (.rule (n + a.toList.count '\n' + 1) source) := by
  obtain ⟨gap, hgap, hlength, hlines⟩ := exists_lines_join h
  obtain ⟨before, line, after, heq, hbefore, hline, rfl⟩ := parse_eq_error_iff.1 hb
  have hfront : ∀ l ∈ Text.lines a.toList, IsReadable l := exists_parse_eq_ok_iff.1 ⟨ca, ha⟩
  refine ⟨_, _, rfl, parse_eq_error_iff.2
    ⟨Text.lines a.toList ++ gap ++ before, line, after, ?_, ?_, hline, ?_⟩⟩
  · rw [hlines br b hbr, heq, List.append_assoc _ before]
  · intro l hl
    rw [List.append_assoc, List.mem_append, List.mem_append] at hl
    obtain hl | hl | hl := hl
    · exact hfront l hl
    · exact .inl (hgap l hl)
    · exact hbefore l hl
  · rw [List.length_append, hlength]
    congr 1
    omega

/-- Reading joined texts is reading the first and then the second, whichever line break joins
them. -/
theorem parse_join (a b : String) (h : a.toList.getLast? ≠ some '\r') :
    parse (a ++ "\r\n" ++ b) = parse (a ++ "\n" ++ b) ∧
    (∀ ca cb, parse a = .ok ca → parse b = .ok cb →
      parse (a ++ "\n" ++ b) = .ok ⟨ca.rules ++ cb.rules, .nonWorking⟩) ∧
    (∀ e, parse a = .error e → parse (a ++ "\n" ++ b) = .error e) ∧
    ∀ ca e, parse a = .ok ca → parse b = .error e →
      ∃ n source, e = .rule n source ∧
        parse (a ++ "\n" ++ b) = .error (.rule (n + a.toList.count '\n' + 1) source) := by
  have hfeed : Text.IsBreak "\n".toList := .inl rfl
  have hreturn : Text.IsBreak "\r\n".toList := .inr rfl
  refine ⟨?_, fun ca cb => parse_join_of_ok h hfeed, fun e => parse_join_of_error_left h hfeed b,
    fun ca e => parse_join_of_error_right h hfeed⟩
  obtain ⟨gap, -, -, hlines⟩ := exists_lines_join h
  rw [parse_eq, parse_eq, hlines _ b hreturn, hlines _ b hfeed]

/-- A line that is refused as the second of its text is the sixth of the joined text, since the text
in front has three line feeds and the break is one more. -/
theorem parse_join_refused_line :
    "# x\r\n\n* * * * [[a]]\n".toList.getLast? ≠ some '\r' ∧
      ∃ ca, parse "# x\r\n\n* * * * [[a]]\n" = .ok ca ∧ ca.text = "* * * * [[a]]\n" ∧
        parse "\n13" = .error (.rule 2 (.malformed "day rule" "13")) ∧
          parse ("# x\r\n\n* * * * [[a]]\n" ++ "\n" ++ "\n13") =
            .error (.rule 6 (.malformed "day rule" "13")) := by
  have hlast : "# x\r\n\n* * * * [[a]]\n".toList.getLast? ≠ some '\r' := by decide
  have htext : (parse "# x\r\n\n* * * * [[a]]\n").map text = .ok "* * * * [[a]]\n" := by
    decide +kernel
  have hb : parse "\n13" = .error (.rule 2 (.malformed "day rule" "13")) := by decide +kernel
  obtain ⟨ca, ha, htext⟩ := map_eq_ok_iff.1 htext
  obtain ⟨n, source, heq, hjoin⟩ := (parse_join _ _ hlast).2.2.2 _ _ ha hb
  cases heq
  exact ⟨hlast, ca, ha, htext, hb, hjoin⟩

end Workdays.Calendar
