import Mathlib.Data.List.Induction
import Workdays.Proofs.Calendar.Span

/-!
# Overriding in order

A calendar looks for the last rule that selects a date. Its answer is the one that is found by going
through the rules in order, where each rule that selects the date overrides what was said of it
before. So the answer hangs on the last of these rules alone: rules that are overridden or do not
select the date may come and go, and the rules may change places around the one that decides.

## Main definitions

* `Calendar.override`: what is said of a date after one more rule.
* `Calendar.Decides`: the last rule of a list that selects a date.
* `Calendar.Extends`: the lists with further rules that are of no account for a date.
-/

namespace Workdays

/-- What is said of a date that no rule selects. -/
def UnmatchedPolicy.answer : UnmatchedPolicy → Date → Except CalendarError Day
  | .nonWorking, d => .ok (Day.nonWorking d)
  | .reject, d => .error (.unmatched d)

namespace Calendar

/-- A rule that selects the date overrides what was said of it before. -/
def override (d : Date) (answer : Except CalendarError Day) (rule : Rule) :
    Except CalendarError Day :=
  if rule.Selects d then .ok (Day.ofRule d rule) else answer

/-- The rule selects the date, and none of the later rules does. -/
def IsLastFor (d : Date) (rule : Rule) (later : List Rule) : Prop :=
  rule.Selects d ∧ ∀ r ∈ later, ¬ r.Selects d

/-- The rule stands in the list as the last one that selects the date. -/
def Decides (d : Date) (rule : Rule) (rules : List Rule) : Prop :=
  ∃ front back, rules = front ++ rule :: back ∧ IsLastFor d rule back

/-- The second list has the rules of the first one in their order. Between them stand other rules,
which do not select the date or come before a rule of the first list that does. -/
inductive Extends (d : Date) : List Rule → List Rule → Prop
  | nil : Extends d [] []
  | keep {rule : Rule} {rules rules' : List Rule} :
      Extends d rules rules' → Extends d (rule :: rules) (rule :: rules')
  | insert {rule : Rule} {rules rules' : List Rule} :
      (¬ rule.Selects d ∨ ∃ later ∈ rules, later.Selects d) →
        Extends d rules rules' → Extends d rules (rule :: rules')

variable {d : Date} {rule : Rule} {rules rules' : List Rule} {policy : UnmatchedPolicy}
  {a b : Except CalendarError Day}

/-! ## The deciding rule -/

/-- The rule that a calendar finds is the last one that selects the date. -/
theorem decidingRule?_eq_some_iff :
    decidingRule? ⟨rules, policy⟩ d = some rule ↔ Decides d rule rules := by
  simp only [decidingRule?, List.find?_eq_some_iff_append, decide_eq_true_eq, Bool.not_eq_true',
    decide_eq_false_iff_not]
  constructor
  · intro h
    obtain ⟨hrule, back, front, heq, hback⟩ := h
    refine ⟨front.reverse, back.reverse, ?_, hrule, by simpa using hback⟩
    rw [← List.reverse_reverse rules, heq]
    simp
  · intro h
    obtain ⟨front, back, rfl, hrule, hback⟩ := h
    exact ⟨hrule, back.reverse, front.reverse, by simp, by simpa using hback⟩

theorem Decides.unique {other : Rule} (h : Decides d rule rules) (h' : Decides d other rules) :
    rule = other := by
  have hrule : decidingRule? ⟨rules, .reject⟩ d = some rule := decidingRule?_eq_some_iff.2 h
  rw [decidingRule?_eq_some_iff.2 h'] at hrule
  exact (Option.some.inj hrule).symm

/-! ## Going through the rules -/

/-- One more rule at the end overrides the answer if it selects the date. -/
theorem dayAt_append_singleton :
    dayAt ⟨rules ++ [rule], policy⟩ d = override d (dayAt ⟨rules, policy⟩ d) rule := by
  unfold override dayAt decidingRule?
  rw [List.reverse_append, List.reverse_singleton, List.singleton_append, List.find?_cons]
  by_cases h : rule.Selects d <;> simp [h]

theorem dayAt_eq_foldl : dayAt ⟨rules, policy⟩ d = rules.foldl (override d) (policy.answer d) := by
  induction rules using List.reverseRecOn with
  | nil => cases policy <;> rfl
  | append_singleton rules rule ih =>
    rw [dayAt_append_singleton, List.foldl_append, ih, List.foldl_cons, List.foldl_nil]

theorem override_of_selects (h : rule.Selects d) : override d a rule = .ok (Day.ofRule d rule) :=
  if_pos h

theorem override_of_not_selects (h : ¬ rule.Selects d) : override d a rule = a := if_neg h

theorem foldl_override_of_forall_not (h : ∀ rule ∈ rules, ¬ rule.Selects d) :
    rules.foldl (override d) a = a := by
  induction rules with
  | nil => rfl
  | cons rule rules ih =>
    obtain ⟨hrule, hrules⟩ := List.forall_mem_cons.1 h
    rw [List.foldl_cons, override_of_not_selects hrule, ih hrules]

/-- What was said before does not matter when a rule is to come that selects the date. -/
theorem foldl_override_congr (h : ∃ rule ∈ rules, rule.Selects d) :
    rules.foldl (override d) a = rules.foldl (override d) b := by
  induction rules generalizing a b with
  | nil => simp at h
  | cons rule rules ih =>
    rw [List.foldl_cons, List.foldl_cons]
    by_cases hrule : rule.Selects d
    · rw [override_of_selects hrule, override_of_selects hrule]
    · exact ih (by simpa [hrule] using h)

theorem foldl_override_of_decides (h : Decides d rule rules) :
    rules.foldl (override d) a = .ok (Day.ofRule d rule) := by
  obtain ⟨front, back, rfl, hrule, hback⟩ := h
  rw [List.foldl_append, List.foldl_cons, override_of_selects hrule,
    foldl_override_of_forall_not hback]

theorem exists_decides (h : ∃ rule ∈ rules, rule.Selects d) : ∃ rule, Decides d rule rules := by
  induction rules with
  | nil => simp at h
  | cons rule rules ih =>
    by_cases hrules : ∃ later ∈ rules, later.Selects d
    · obtain ⟨last, front, back, heq, hlast⟩ := ih hrules
      exact ⟨last, rule :: front, back, by rw [heq, List.cons_append], hlast⟩
    · have hrule : rule.Selects d := by simpa [hrules] using h
      exact ⟨rule, [], rules, rfl, hrule, by simpa using hrules⟩

/-! ## Rules that are of no account -/

theorem Extends.refl (d : Date) (rules : List Rule) : Extends d rules rules := by
  induction rules with
  | nil => exact .nil
  | cons rule rules ih => exact .keep ih

theorem Extends.append_left (front : List Rule) (h : Extends d rules rules') :
    Extends d (front ++ rules) (front ++ rules') := by
  induction front with
  | nil => exact h
  | cons rule front ih => exact .keep ih

/-- Taking out one rule, unless it is the last that selects the date, leaves a list that the rules
extend. -/
theorem Extends.of_not_isLastFor {front back : List Rule} (h : ¬ IsLastFor d rule back) :
    Extends d (front ++ back) (front ++ rule :: back) := by
  refine (Extends.insert ?_ (.refl d back)).append_left front
  unfold IsLastFor at h
  grind

theorem Extends.foldl_override (h : Extends d rules rules') :
    rules'.foldl (override d) a = rules.foldl (override d) a := by
  induction h generalizing a with
  | nil => rfl
  | keep _ ih => exact ih
  | insert hidle _ ih =>
    rw [List.foldl_cons, ih]
    obtain hrule | hlater := hidle
    · rw [override_of_not_selects hrule]
    · exact foldl_override_congr hlater

/-- The rules may change places as long as the same one decides. -/
theorem foldl_override_of_perm (hperm : rules'.Perm rules)
    (hdecides : ∀ rule, Decides d rule rules → Decides d rule rules') :
    rules'.foldl (override d) a = rules.foldl (override d) a := by
  by_cases h : ∃ rule ∈ rules, rule.Selects d
  · obtain ⟨rule, hrule⟩ := exists_decides h
    rw [foldl_override_of_decides hrule, foldl_override_of_decides (hdecides rule hrule)]
  · have hnone : ∀ rule ∈ rules, ¬ rule.Selects d := by simpa using h
    rw [foldl_override_of_forall_not hnone,
      foldl_override_of_forall_not fun rule hrule => hnone rule (hperm.mem_iff.1 hrule)]

/-- What a calendar says of a date is what its policy says, overridden in order by each rule that
selects the date. It stays the same when a rule is taken out that is not the last of these, when
rules are added that do not select the date or come before the last one that does, and when the
rules change places so that the same one is the last. -/
theorem dayAt_overrides_in_order (c : Calendar) (d : Date) :
    c.dayAt d = c.rules.foldl (override d) (c.unmatched.answer d) ∧
    (∀ front rule back, c.rules = front ++ rule :: back → ¬ IsLastFor d rule back →
      dayAt ⟨front ++ back, c.unmatched⟩ d = c.dayAt d) ∧
    (∀ rules, Extends d c.rules rules → dayAt ⟨rules, c.unmatched⟩ d = c.dayAt d) ∧
    ∀ rules, rules.Perm c.rules → (∀ rule, Decides d rule c.rules → Decides d rule rules) →
      dayAt ⟨rules, c.unmatched⟩ d = c.dayAt d := by
  obtain ⟨rules, policy⟩ := c
  simp only [dayAt_eq_foldl, true_and]
  refine ⟨?_, fun rules' h => h.foldl_override, fun rules' => foldl_override_of_perm⟩
  rintro front rule back rfl h
  exact (Extends.of_not_isLastFor h).foldl_override.symm

/-- Christmas is on a Wednesday, and the rule for it decides after one for weekdays, whatever there is
of rules for weekdays before it and of rules for January. -/
theorem dayAt_christmas :
    ∃ weekday christmas january, Workdays.parse Rule "* * * 1..5 08:00-18:00" = .ok weekday ∧
      Workdays.parse Rule "* 12 25 * [[Christmas]]" = .ok christmas ∧
      Workdays.parse Rule "* 1 * *" = .ok january ∧
      ∀ rules ∈ [[weekday, christmas, january], [christmas, january],
          [weekday, weekday, christmas, january, january], [january, weekday, christmas]],
        dayAt ⟨rules, .reject⟩ (.mk 2024 12 25) = .ok ⟨.mk 2024 12 25, some "Christmas", []⟩ := by
  have hrules : (do
      let weekday ← Workdays.parse Rule "* * * 1..5 08:00-18:00"
      let christmas ← Workdays.parse Rule "* 12 25 * [[Christmas]]"
      let january ← Workdays.parse Rule "* 1 * *"
      return (decide (weekday.Selects (.mk 2024 12 25)),
        decide (christmas.Selects (.mk 2024 12 25)), decide (january.Selects (.mk 2024 12 25)),
        dayAt ⟨[weekday, christmas, january], .reject⟩ (.mk 2024 12 25))) =
      Except.ok (true, true, false, .ok ⟨.mk 2024 12 25, some "Christmas", []⟩) := by
    decide +kernel
  simp only [bind_eq_ok_iff, pure_eq_ok_iff, Prod.mk.injEq, decide_eq_true_eq,
    decide_eq_false_iff_not] at hrules
  obtain ⟨weekday, hw, christmas, hc, january, hj, -, hchristmas, hjanuary, hday⟩ := hrules
  obtain ⟨-, hdelete, hextend, hreorder⟩ := dayAt_overrides_in_order
    ⟨[weekday, christmas, january], .reject⟩ (.mk 2024 12 25)
  refine ⟨weekday, christmas, january, hw, hc, hj, ?_⟩
  simp only [List.forall_mem_cons, List.not_mem_nil, false_imp_iff, implies_true, and_true]
  refine ⟨hday, ?_, ?_, ?_⟩ <;> rw [← hday]
  · exact hdelete [] weekday [christmas, january] rfl fun h => h.2 christmas (by simp) hchristmas
  · exact hextend _ (.keep (.insert (.inr ⟨christmas, by simp, hchristmas⟩) (.keep
      (.insert (.inl hjanuary) (.refl _ [january])))))
  · refine hreorder _ (List.perm_append_comm : ([january] ++ _).Perm _) ?_
    intro rule hrule
    obtain rfl := hrule.unique ⟨[weekday], [january], rfl, hchristmas, by simpa using hjanuary⟩
    exact ⟨[january, weekday], [], rfl, hchristmas, List.forall_mem_nil _⟩

end Calendar

end Workdays
