import Workdays.Proofs.Calendar.Reading
import Workdays.Proofs.Rule.Refusal

/-!
# What is logged

A line that is refused is told of once, with its first fault. A calendar is told of once as well:
how many rules it has, or the first fault of the first line that is not readable. The lines in front
of it are silent, and the lines after it are not read.

## Main definitions

* `Logged.entries`: the events as they are printed, the level and the message of each.
* `Calendar.eventsFrom`: the events of lines, numbered from a given number.
-/

namespace Workdays

def Logged.entries {α : Type} (l : Logged α) : List (String × String) :=
  l.events.map fun event => (event.level.name, event.message)

/-! ## One line -/

namespace Rule

variable {line : String} {r : Rule} {reason : Rejection}

theorem events_of_allBlank (h : Text.AllBlank line.toList) : (parseLogged line).events = [] :=
  if_pos h

theorem parse?_eq_some_iff_ofLine : parse? Rule line = some r ↔ ofLine line.toList = .ok r := by
  change (ofLine line.toList).toOption = some r ↔ _
  exact toOption_eq_some_iff

theorem events_of_parse? (h : parse? Rule line = some r) : (parseLogged line).events = [] := by
  rw [parse?_eq_some_iff_ofLine] at h
  simp [parseLogged, h]

theorem events_of_error (hblank : ¬ Text.AllBlank line.toList)
    (h : ofLine line.toList = .error reason) :
    (parseLogged line).events = [.rejected reason] := by
  simp [parseLogged, hblank, h]

/-- A line that is neither blank nor a rule has a fault that comes first, and is told of by it. -/
theorem exists_firstFault (hblank : ¬ Text.AllBlank line.toList) (h : parse? Rule line = none) :
    ∃ message, (∀ m, FirstFault line.toList m ↔ m = message) ∧
      (parseLogged line).entries = [("DEBUG", message)] := by
  cases hline : ofLine line.toList with
  | ok r => cases h.symm.trans (parse?_eq_some_iff_ofLine.2 hline)
  | error reason =>
    refine ⟨reason.message, fun m => firstFault_iff_of_error hline, ?_⟩
    rw [Logged.entries, events_of_error hblank hline]
    rfl

end Rule

/-! ## Calendars -/

namespace Calendar

variable {text : String} {line : List Char} {lines before after : List (List Char)} {k : Nat}

/-- The events of lines, the first of which has the given number. -/
def eventsFrom (k : Nat) (lines : List (List Char)) : List LogEvent :=
  (readRules (numbered k lines)).events

@[simp] theorem eventsFrom_nil : eventsFrom k [] = [] := rfl

/-- A readable line is silent. -/
theorem eventsFrom_cons_of_isReadable (h : IsReadable line) :
    eventsFrom k (line :: lines) = eventsFrom (k + 1) lines := by
  by_cases hend : LineParts.IsEnd line
  · rw [eventsFrom, numbered_cons_of_isEnd hend, eventsFrom]
  · obtain ⟨r, hr⟩ := h.resolve_left hend
    have hsilent := Rule.events_of_parse? (Workdays.parse_eq_ok_iff.1 hr).2
    have hresult : (Rule.parseLogged (String.ofList line)).result = .ok r := hr
    rw [eventsFrom, numbered_cons_of_not hend, readRules]
    rcases hlogged : Rule.parseLogged (String.ofList line) with ⟨_, events⟩
    rw [hlogged] at hsilent hresult
    cases hresult
    cases hsilent
    rfl

/-- Nothing after a line that is not readable is told of. -/
theorem eventsFrom_cons_of_not (h : ¬ IsReadable line) :
    eventsFrom k (line :: lines) = (Rule.parseLogged (String.ofList line)).events := by
  obtain ⟨hend, hrule⟩ := not_or.1 h
  have hresult : (Rule.parseLogged (String.ofList line)).result = ruleOf line := rfl
  rw [eventsFrom, numbered_cons_of_not hend, readRules]
  rcases hlogged : Rule.parseLogged (String.ofList line) with ⟨_ | r, events⟩
  · rfl
  · rw [hlogged] at hresult
    exact absurd ⟨r, hresult.symm⟩ hrule

theorem eventsFrom_of_forall (h : ∀ l ∈ lines, IsReadable l) : eventsFrom k lines = [] := by
  induction lines generalizing k with
  | nil => rfl
  | cons line lines ih =>
    obtain ⟨hline, hlines⟩ := List.forall_mem_cons.1 h
    rw [eventsFrom_cons_of_isReadable hline, ih hlines]

theorem eventsFrom_append_cons (hbefore : ∀ l ∈ before, IsReadable l) (hline : ¬ IsReadable line) :
    eventsFrom k (before ++ line :: after) =
      (Rule.parseLogged (String.ofList line)).events := by
  induction before generalizing k with
  | nil => exact eventsFrom_cons_of_not hline
  | cons first before ih =>
    obtain ⟨hfirst, hbefore⟩ := List.forall_mem_cons.1 hbefore
    rw [List.cons_append, eventsFrom_cons_of_isReadable hfirst, ih hbefore]

theorem parseLogged_events_of_error {e : CalendarError} (h : parse text = .error e) :
    (parseLogged text).events = eventsFrom 1 (Text.lines text.toList) := by
  change _ = (readRules (ruleLines text.toList)).events
  rw [parse, parseLogged] at h
  rw [parseLogged]
  rcases hread : readRules (ruleLines text.toList) with ⟨_ | _, _⟩
  · rfl
  · rw [hread] at h
    cases h

theorem parseLogged_events_of_ok {c : Calendar} (h : parse text = .ok c) :
    (parseLogged text).events =
      eventsFrom 1 (Text.lines text.toList) ++ [.loaded c.rules.length] := by
  change _ = (readRules (ruleLines text.toList)).events ++ _
  rw [parse, parseLogged] at h
  rw [parseLogged]
  rcases hread : readRules (ruleLines text.toList) with ⟨_ | _, _⟩
  · rw [hread] at h
    cases h
  · rw [hread] at h
    cases h
    rfl

/-- A calendar that is read is told of by the number of its rules. -/
theorem entries_of_parse_eq_ok {c : Calendar} (h : parse text = .ok c) :
    (parseLogged text).entries =
      [("DEBUG", s!"Loaded a calendar of {c.rules.length} rules")] := by
  have hreadable := exists_parse_eq_ok_iff.1 ⟨c, h⟩
  rw [Logged.entries, parseLogged_events_of_ok h, eventsFrom_of_forall hreadable]
  rfl

/-- A calendar that is not read is told of by the first fault of its first bad line. -/
theorem entries_of_first_unreadable {e : CalendarError} (h : parse text = .error e)
    (hlines : Text.lines text.toList = before ++ line :: after)
    (hbefore : ∀ l ∈ before, IsReadable l) (hline : ¬ IsReadable line) :
    ∃ message, (∀ m, FirstFault line m ↔ m = message) ∧
      (parseLogged text).entries = [("DEBUG", message)] := by
  obtain ⟨hend, hrule⟩ := not_or.1 hline
  have hblank : ¬ Text.AllBlank (String.ofList line).toList := by
    rw [String.toList_ofList]
    exact fun hblank => hend (.blank hblank)
  have hnone : parse? Rule (String.ofList line) = none := by
    rw [Option.eq_none_iff_forall_ne_some]
    intro r hr
    exact hrule ⟨r, Workdays.parse_eq_ok_iff.2 ⟨hblank, hr⟩⟩
  have hentries : (parseLogged text).entries =
      (Rule.parseLogged (String.ofList line)).entries := by
    rw [Logged.entries, parseLogged_events_of_error h, hlines, eventsFrom_append_cons hbefore hline,
      Logged.entries]
  rw [hentries]
  simpa only [String.toList_ofList] using Rule.exists_firstFault hblank hnone

/-- A blank line is silent, and so is a rule; any other line has one fault that comes first, and
this alone is told of it. A calendar is told of once: how many rules it has, or the first fault of
its first line that is not readable. -/
theorem log_tells_first_fault :
    (∀ line : String, Text.AllBlank line.toList → (Rule.parseLogged line).entries = []) ∧
    (∀ line : String, ¬ Text.AllBlank line.toList →
      (∃ r, parse? Rule line = some r) ∧ (∀ m, ¬ FirstFault line.toList m) ∧
          (Rule.parseLogged line).entries = [] ∨
        parse? Rule line = none ∧ ∃ message, (∀ m, FirstFault line.toList m ↔ m = message) ∧
          (Rule.parseLogged line).entries = [("DEBUG", message)]) ∧
    ∀ text : String,
      (∃ c, parse text = .ok c ∧ (parseLogged text).entries =
          [("DEBUG", s!"Loaded a calendar of {c.rules.length} rules")]) ∨
        ∃ before line after message, Text.lines text.toList = before ++ line :: after ∧
          (∀ l ∈ before, IsReadable l) ∧ ¬ IsReadable line ∧
          parse text =
            .error (.rule (before.length + 1) (.malformed "day rule" (String.ofList line))) ∧
          (∀ m, FirstFault line m ↔ m = message) ∧
          (parseLogged text).entries = [("DEBUG", message)] := by
  refine ⟨?_, ?_, ?_⟩
  · intro line hblank
    rw [Logged.entries, Rule.events_of_allBlank hblank, List.map_nil]
  · intro line hblank
    cases hread : parse? Rule line with
    | none => exact .inr ⟨rfl, Rule.exists_firstFault hblank hread⟩
    | some r =>
      refine .inl ⟨⟨r, rfl⟩, fun m => ?_, ?_⟩
      · exact Rule.not_firstFault_of_ok (Rule.parse?_eq_some_iff_ofLine.1 hread)
      · rw [Logged.entries, Rule.events_of_parse? hread, List.map_nil]
  · intro text
    cases hparse : parse text with
    | ok c => exact .inl ⟨c, rfl, entries_of_parse_eq_ok hparse⟩
    | error e =>
      obtain ⟨before, line, after, hlines, hbefore, hline, rfl⟩ := parse_eq_error_iff.1 hparse
      obtain ⟨message, hfault, hentries⟩ :=
        entries_of_first_unreadable hparse hlines hbefore hline
      exact .inr ⟨before, line, after, message, hlines, hbefore, hline, rfl, hfault, hentries⟩

/-- Two fields of the line are at fault, and the first of them is told. -/
theorem log_tells_month :
    (Rule.parseLogged "\t").entries = [] ∧
      (Rule.parseLogged "* 13 40 *").entries =
        [("DEBUG", "Invalid month matcher in day rule: `13`")] := by
  have hfault : Rule.ofLine "* 13 40 *".toList = .error (.field "month matcher" "13") := by
    decide +kernel
  refine ⟨log_tells_first_fault.1 "\t" (by decide), ?_⟩
  obtain ⟨⟨r, hr⟩, -⟩ | ⟨-, message, hmessage, hentries⟩ :=
    log_tells_first_fault.2.1 "* 13 40 *" (by decide)
  · cases hfault.symm.trans (Rule.parse?_eq_some_iff_ofLine.1 hr)
  · have htold := (hmessage _).1 ((Rule.firstFault_iff_of_error hfault).2 rfl)
    rw [hentries, ← htold]
    rfl

end Calendar

end Workdays
