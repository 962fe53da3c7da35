import Workdays.Proofs.Text.Faithful

/-!
# Reasons

A text is asked for blanks before it is read with reasons, and is not asked before it is read
without them. The two readers agree all the same if each text of a value has a character that is not
blank. A list is then no exception, whatever its separator is: a blank text is cut into blank
segments, and there is one at least.

## Main definitions

* `Written.Refuses`, `Written.RefusesList`: why a text is refused as a value, or as a list.
* `Written.Reasoned`, `Written.ReasonedList`: reading with reasons agrees with reading without, and
  gives the reason for which the text is refused.
* `Visible`: the class of types of which no blank text denotes a value.
-/

namespace Workdays

namespace Text

variable {sep text segment : List Char}

theorem AllBlank.of_mem_splitOn (h : AllBlank text) (hsegment : segment ∈ splitOn sep text) :
    AllBlank segment := by
  fun_induction splitOn sep text with
  | case1 => simp_all
  | case2 => simp_all
  | case3 text _ front rest hcut ih =>
    have htext := eq_append_of_splitFirst? hcut
    obtain rfl | hsegment := List.mem_cons.1 hsegment
    · exact fun c hc => h c (by simp [htext, hc])
    · exact ih (fun c hc => h c (by simp [htext, hc])) hsegment

end Text

namespace Written

/-- Why a text is refused as a value: it is blank, or else it is the form of none. -/
inductive Refuses (α : Type) [Written α] (s : String) : ReadError → Prop
  | blank : Text.AllBlank s.toList → Refuses α s (.blank (argument α))
  | malformed : ¬ Text.AllBlank s.toList → parse? α s = none → Refuses α s (.malformed (kind α) s)

/-- Why a text is refused as a list: it is blank, or else the separator is empty, or else there is a
first segment that is refused as a value. -/
inductive RefusesList (α : Type) [Written α] (sep s : String) : ReadError → Prop
  | blank : Text.AllBlank s.toList → RefusesList α sep s (.blank .values)
  | separator : ¬ Text.AllBlank s.toList → sep = "" → RefusesList α sep s (.blank .separator)
  | segment {front back : List (List Char)} {segment : List Char} :
      ¬ Text.AllBlank s.toList → sep ≠ "" →
      Text.splitOn sep.toList s.toList = front ++ segment :: back →
      (∀ before ∈ front, ∃ a, parse? α (String.ofList before) = some a) →
      parse? α (String.ofList segment) = none →
      RefusesList α sep s (.malformed (kind α) (String.ofList segment))

/-- A text is read as a value with reasons when it is without, and is refused for its reason. -/
structure Reasoned (α : Type) [Written α] : Prop where
  ok_iff (s : String) (a : α) : parse α s = .ok a ↔ parse? α s = some a
  error_iff (s : String) (e : ReadError) : parse α s = .error e ↔ Refuses α s e

/-- The same for the lists with a separator. -/
structure ReasonedList (α : Type) [Written α] (sep : String) : Prop where
  ok_iff (s : String) (as : List α) : parseList α sep s = .ok as ↔ parseList? α sep s = some as
  error_iff (s : String) (e : ReadError) : parseList α sep s = .error e ↔ RefusesList α sep s e

variable {α : Type} [Written α] {s sep : String} {segment : List Char}
  {segments : List (List Char)} {a : α} {as : List α} {e : ReadError}

theorem parse_eq_error_iff_refuses : parse α s = .error e ↔ Refuses α s e := by
  rw [parse_eq_error_iff]
  constructor
  · intro h
    obtain ⟨hblank, rfl⟩ | ⟨hblank, hread, rfl⟩ := h
    · exact .blank hblank
    · exact .malformed hblank hread
  · intro h
    cases h with
    | blank hblank => exact .inl ⟨hblank, rfl⟩
    | malformed hblank hread => exact .inr ⟨hblank, hread, rfl⟩

/-! ## Segments -/

theorem readSegment_eq_ok_iff : readSegment α segment = .ok a ↔ read? segment = some a := by
  unfold readSegment
  cases (read? segment : Option α) <;> simp

theorem readSegment_eq_error_iff : readSegment α segment = .error e ↔
    (read? segment : Option α) = none ∧ e = .malformed (kind α) (String.ofList segment) := by
  unfold readSegment
  cases (read? segment : Option α) <;> simp [eq_comm]

theorem mapM_readSegment_eq_ok_iff : segments.mapM (readSegment α) = .ok as ↔
    List.Forall₂ (fun segment a => read? segment = some a) segments as := by
  simp only [mapM_eq_ok_iff, ← readSegment_eq_ok_iff]
  rw [← List.forall₂_eq_eq_eq, List.forall₂_map_left_iff, List.forall₂_map_right_iff]

/-- Reading a list with reasons succeeds on the texts that are neither blank nor refused. -/
theorem parseList_eq_ok_iff :
    parseList α sep s = .ok as ↔ ¬ Text.AllBlank s.toList ∧ parseList? α sep s = some as := by
  unfold parseList
  split
  · simp [*]
  · simp only [*, not_false_eq_true, true_and, parseList?, readList?_eq_some_iff_forall₂]
    split
    · simp [*]
    · simp [*, mapM_readSegment_eq_ok_iff]

/-- What is reported of a list is told by the first segment that is refused. -/
theorem parseList_eq_error_iff : parseList α sep s = .error e ↔ RefusesList α sep s e := by
  by_cases hblank : Text.AllBlank s.toList
  · rw [parseList, if_pos hblank, Except.error.injEq]
    constructor
    · rintro rfl
      exact .blank hblank
    · rintro (_ | hnot | hnot)
      · rfl
      all_goals contradiction
  by_cases hsep : sep = ""
  · rw [parseList, if_neg hblank, if_pos hsep, Except.error.injEq]
    constructor
    · rintro rfl
      exact .separator hblank hsep
    · rintro (_ | _ | ⟨_, hnot⟩)
      · contradiction
      · rfl
      · contradiction
  rw [parseList, if_neg hblank, if_neg hsep, mapM_eq_error_iff]
  simp only [readSegment_eq_ok_iff, readSegment_eq_error_iff]
  constructor
  · intro h
    obtain ⟨front, segment, back, hcut, hfront, hread, rfl⟩ := h
    exact .segment hblank hsep hcut (by simpa [parse?] using hfront) (by simpa [parse?] using hread)
  · intro h
    cases h with
    | blank | separator => contradiction
    | segment _ _ hcut hfront hread =>
      exact ⟨_, _, _, hcut, by simpa [parse?] using hfront, by simpa [parse?] using hread, rfl⟩

end Written

/-- A type of values each text of which has a character that is not blank. -/
class Visible (α : Type) [Written α] : Prop where
  not_allBlank_of_read? {cs : List Char} {a : α} :
    Written.read? cs = some a → ¬ Text.AllBlank cs

namespace Visible

variable {α : Type} [Written α] [Visible α] {s sep : String} {cs : List Char} {as : List α}

theorem reasoned : Written.Reasoned α where
  ok_iff s a := by
    rw [parse_eq_ok_iff]
    exact and_iff_right_of_imp not_allBlank_of_read?
  error_iff _ _ := Written.parse_eq_error_iff_refuses

/-- A list has a first segment, and this is not blank. -/
theorem not_allBlank_of_readList? {sep : List Char} (h : Written.readList? α sep cs = some as) :
    ¬ Text.AllBlank cs := by
  obtain ⟨-, hread⟩ := Written.readList?_eq_some_iff_forall₂.1 h
  obtain ⟨segment, segments, hcut⟩ := List.exists_cons_of_ne_nil (Text.splitOn_ne_nil sep cs)
  rw [hcut] at hread
  cases hread with
  | cons hread _ =>
    intro hblank
    exact not_allBlank_of_read? hread (hblank.of_mem_splitOn (hcut ▸ List.mem_cons_self))

theorem reasonedList (sep : String) : Written.ReasonedList α sep where
  ok_iff s as := by
    rw [Written.parseList_eq_ok_iff]
    exact and_iff_right_of_imp not_allBlank_of_readList?
  error_iff _ _ := Written.parseList_eq_error_iff

end Visible

end Workdays
