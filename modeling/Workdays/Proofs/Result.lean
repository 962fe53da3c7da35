import Mathlib.Data.List.Forall2
import Mathlib.Data.Set.List

/-!
# Results

A result is a value or the reason why there is none. A list of results is gathered from left to
right: the values in their order, or the reason of the first failure, whatever comes after it. Where
no reason is given, there are the values or nothing. Readers are tried in turn, and their order is
of no account where no text is for two of them.

## Main definitions

* `Exclusive`: the lists of readers of which no two accept one text.
-/

namespace Workdays

variable {ε ε' α β : Type} {x : Except ε α} {a : α} {b : β} {e : ε}

theorem bind_eq_ok_iff {f : α → Except ε β} :
    (x >>= f) = .ok b ↔ ∃ a, x = .ok a ∧ f a = .ok b := by
  cases x <;> simp [bind, Except.bind]

theorem bind_eq_error_iff {f : α → Except ε β} :
    (x >>= f) = .error e ↔ x = .error e ∨ ∃ a, x = .ok a ∧ f a = .error e := by
  cases x <;> simp [bind, Except.bind]

theorem map_eq_ok_iff {f : α → β} : x.map f = .ok b ↔ ∃ a, x = .ok a ∧ f a = b := by
  cases x <;> simp [Except.map]

theorem map_eq_error_iff {f : α → β} : x.map f = .error e ↔ x = .error e := by
  cases x <;> simp [Except.map]

theorem toOption_eq_some_iff : x.toOption = some a ↔ x = .ok a := by
  cases x <;> simp [Except.toOption]

theorem mapError_eq_ok_iff {f : ε → ε'} : x.mapError f = .ok a ↔ x = .ok a := by
  cases x <;> simp [Except.mapError]

theorem mapError_eq_error_iff {f : ε → ε'} {e' : ε'} :
    x.mapError f = .error e' ↔ ∃ e, x = .error e ∧ f e = e' := by
  cases x <;> simp [Except.mapError]

/-! ## Gathering results -/

/-- A place in a list that is not empty is the first one or a place in the rest. -/
theorem exists_cons_eq_append_cons_iff {c : α} {as : List α} {P : List α → α → Prop} :
    (∃ front a back, c :: as = front ++ a :: back ∧ P front a) ↔
      P [] c ∨ ∃ front a back, as = front ++ a :: back ∧ P (c :: front) a := by
  constructor
  · intro h
    obtain ⟨_ | ⟨d, front⟩, a, back, heq, hp⟩ := h
    · cases heq
      exact .inl hp
    · cases heq
      exact .inr ⟨front, a, back, rfl, hp⟩
  · intro h
    obtain h | ⟨front, a, back, rfl, hp⟩ := h
    · exact ⟨[], c, as, rfl, h⟩
    · exact ⟨c :: front, a, back, rfl, hp⟩

variable {f : α → Except ε β} {as : List α}

theorem pure_eq_ok_iff {a b : α} : (pure a : Except ε α) = .ok b ↔ a = b := by
  change Except.ok a = Except.ok b ↔ _
  rw [Except.ok.injEq]

theorem pure_ne_error {a : α} : (pure a : Except ε α) ≠ .error e := nofun

/-- The values are gathered when there is one everywhere. -/
theorem mapM_eq_ok_iff {bs : List β} : as.mapM f = .ok bs ↔ as.map f = bs.map .ok := by
  induction as generalizing bs with
  | nil => cases bs <;> simp [pure_eq_ok_iff]
  | cons a as ih =>
    rw [List.mapM_cons]
    simp only [bind_eq_ok_iff, ih, pure_eq_ok_iff, List.map_cons]
    cases bs <;> simp

/-- The reason that is gathered is the first one. -/
theorem mapM_eq_error_iff :
    as.mapM f = .error e ↔ ∃ front a back, as = front ++ a :: back ∧
      (∀ x ∈ front, ∃ b, f x = .ok b) ∧ f a = .error e := by
  induction as with
  | nil => simp [pure_ne_error]
  | cons c as ih =>
    rw [List.mapM_cons, exists_cons_eq_append_cons_iff]
    simp only [bind_eq_error_iff, ih, pure_ne_error, and_false, exists_false, or_false,
      List.forall_mem_cons]
    grind

/-- There are values to gather when each result is a value. -/
theorem exists_map_eq_map_ok_iff :
    (∃ bs : List β, as.map f = bs.map .ok) ↔ ∀ a ∈ as, ∃ b, f a = .ok b := by
  have h : as.map f ∈ Set.range (List.map (Except.ok : β → Except ε β)) ↔
      ∀ x ∈ as.map f, x ∈ Set.range Except.ok := by
    rw [Set.range_list_map, Set.mem_ofPred_eq]
  simpa only [Set.mem_range, List.forall_mem_map, eq_comm] using h

/-- The same without reasons. -/
theorem mapM_eq_some_iff {f : α → Option β} {bs : List β} :
    as.mapM f = some bs ↔ List.Forall₂ (fun a b => f a = some b) as bs := by
  induction as generalizing bs with
  | nil => simp [eq_comm]
  | cons a as ih =>
    rw [List.mapM_cons, List.forall₂_cons_left_iff]
    simp only [← ih]
    cases f a <;> cases as.mapM f <;> simp [eq_comm]

/-! ## Trying readers -/

/-- No text is accepted by two of the readers. -/
def Exclusive (readers : List (α → Option β)) : Prop :=
  readers.Pairwise fun f g => ∀ text, f text = none ∨ g text = none

namespace Exclusive

variable {readers readers' : List (α → Option β)} {text : α}

/-- What the readers make of a text is what one of them makes of it. -/
theorem findSome?_eq_some_iff (h : Exclusive readers) :
    readers.findSome? (· text) = some b ↔ ∃ f ∈ readers, f text = some b := by
  constructor
  · exact List.exists_of_findSome?_eq_some
  · intro hread
    obtain ⟨f, hf, hread⟩ := hread
    obtain ⟨before, after, rfl⟩ := List.append_of_mem hf
    refine List.findSome?_eq_some_iff.2 ⟨before, f, after, rfl, hread, fun g hg => ?_⟩
    have hexclusive := (List.pairwise_append.1 h).2.2 g hg f List.mem_cons_self text
    exact hexclusive.resolve_right (by simp [hread])

/-- Readers can be tried in any order. -/
theorem findSome?_eq_of_perm (h : Exclusive readers) (hperm : readers'.Perm readers) :
    readers'.findSome? (· text) = readers.findSome? (· text) := by
  have h' : Exclusive readers' := by
    refine (hperm.pairwise_iff ?_).2 h
    intro f g hfg text
    exact (hfg text).symm
  ext b
  simp only [h.findSome?_eq_some_iff, h'.findSome?_eq_some_iff, hperm.mem_iff]

end Exclusive

end Workdays
