import Workdays.Proofs.Result
import Workdays.Text.Written

/-!
# Segments

A separator is found again where it was put, if it has a character that no segment has: such a
character first stands in the text where the first separator puts it, so no separator begins before.
Then a text that was joined from segments is cut into just these segments, and a list of values is
read back from its form when the form of each value is.

## Main definitions

* `Text.Segments`: the cut of a text at each place where a character stands.
* `Written.Lists`: the values that are denoted between the commas of a text.
-/

namespace Workdays

namespace Text

/-- The segments do not hold the character, and the text is the segments with the character between
each two. -/
structure Segments (s : Char) (segments : List (List Char)) (text : List Char) : Prop where
  ne_nil : segments ≠ []
  notMem : ∀ segment ∈ segments, s ∉ segment
  join : [s].intercalate segments = text

variable {s : Char} {sep front rest text : List Char}

/-- A separator does not begin before a place where it stands when no character there is the one
that it is told by. -/
theorem eq_nil_of_append_eq {rest' : List Char} (hs : s ∈ sep) (h : s ∉ front)
    (heq : front ++ (sep ++ rest) = sep ++ rest') : front = [] := by
  have hindex := congrArg (List.idxOf s) heq
  rw [List.idxOf_append_of_notMem h, List.idxOf_append_of_mem hs,
    List.idxOf_append_of_mem hs] at hindex
  exact List.length_eq_zero_iff.1 (by omega)

theorem splitFirst?_append (hs : s ∈ sep) (h : s ∉ front) (rest : List Char) :
    splitFirst? sep (front ++ (sep ++ rest)) = some (front, rest) := by
  induction front with
  | nil =>
    obtain ⟨d, sep, rfl⟩ := List.exists_cons_of_ne_nil (List.ne_nil_of_mem hs)
    have hp : (d :: sep).isPrefixOf? (d :: (sep ++ rest)) = some rest :=
      isPrefixOf?_eq_some_iff.2 rfl
    simp only [List.nil_append, List.cons_append, splitFirst?, hp]
  | cons c front ih =>
    have hnone : sep.isPrefixOf? (c :: (front ++ (sep ++ rest))) = none := by
      refine Option.eq_none_iff_forall_ne_some.2 fun rest' hp => ?_
      have hnil := eq_nil_of_append_eq hs h (isPrefixOf?_eq_some_iff.1 hp)
      cases hnil
    rw [List.cons_append, splitFirst?, hnone]
    simp only [ih (List.not_mem_of_not_mem_cons h), Option.map_some]

theorem splitFirst?_eq_none (hs : s ∈ sep) (h : s ∉ text) : splitFirst? sep text = none := by
  cases hcut : splitFirst? sep text with
  | none => rfl
  | some sides =>
    have := eq_append_of_splitFirst? hcut
    simp_all

theorem splitLast?_append (h : s ∉ rest) :
    splitLast? s (front ++ s :: rest) = some (front, rest) := by
  have hr : splitLast? s rest = none := by
    cases hs : splitLast? s rest with
    | none => rfl
    | some sides =>
      have := eq_append_of_splitLast? hs
      simp_all
  induction front with
  | nil => simp [splitLast?, hr]
  | cons c front ih => simp [splitLast?, ih]

theorem notMem_of_splitFirst? (h : splitFirst? [s] text = some (front, rest)) : s ∉ front := by
  induction text generalizing front with
  | nil => cases h
  | cons c text ih =>
    by_cases hc : s = c
    · subst hc
      have : splitFirst? [s] (s :: text) = some ([], text) :=
        splitFirst?_append List.mem_cons_self List.not_mem_nil text
      rw [this] at h
      cases h
      exact List.not_mem_nil
    · simp only [splitFirst?, isPrefixOf?_cons_of_ne hc, Option.map_eq_some_iff, Prod.exists,
        Prod.mk.injEq] at h
      obtain ⟨front, rest, hcut, rfl, rfl⟩ := h
      simp [hc, ih hcut]

theorem notMem_of_mem_splitOn {segment : List Char} (h : segment ∈ splitOn [s] text) :
    s ∉ segment := by
  fun_induction splitOn [s] text with
  | case1 => contradiction
  | case2 text _ hcut =>
    rw [List.mem_singleton.1 h]
    intro hm
    obtain ⟨front, rest, rfl, hfront⟩ := List.eq_append_cons_of_mem hm
    have hsome := splitFirst?_append (List.mem_singleton_self s) hfront rest
    exact Option.some_ne_none _ (hsome.symm.trans hcut)
  | case3 text _ front rest hcut ih =>
    obtain rfl | h := List.mem_cons.1 h
    · exact notMem_of_splitFirst? hcut
    · exact ih h

/-- Segments are found again if a character of the separator is in none of them. -/
theorem splitOn_intercalate {segments : List (List Char)} (hs : s ∈ sep) (hne : segments ≠ [])
    (h : ∀ segment ∈ segments, s ∉ segment) :
    splitOn sep (sep.intercalate segments) = segments := by
  have hsep : sep ≠ [] := List.ne_nil_of_mem hs
  induction segments with
  | nil => contradiction
  | cons segment segments ih =>
    have hsegment : s ∉ segment := h segment (by simp)
    cases segments with
    | nil =>
      rw [splitOn, dif_neg hsep]
      have : splitFirst? sep segment = none := splitFirst?_eq_none hs hsegment
      split <;> simp_all [List.intercalate]
    | cons next segments =>
      rw [intercalate_cons (by simp), List.append_assoc, splitOn, dif_neg hsep]
      have hcut := splitFirst?_append hs hsegment (sep.intercalate (next :: segments))
      have hrest := ih (by simp) fun segment hm => h segment (by simp [hm])
      split <;> simp_all

theorem segments_iff {segments : List (List Char)} :
    Segments s segments text ↔ splitOn [s] text = segments := by
  constructor
  · intro h
    obtain ⟨hne, hnot, rfl⟩ := h
    exact splitOn_intercalate List.mem_cons_self hne hnot
  · rintro rfl
    exact ⟨splitOn_ne_nil _ _, fun _ => notMem_of_mem_splitOn, intercalate_splitOn _ _⟩

end Text

namespace Written

variable {α : Type} [Written α] {sep cs : List Char} {as : List α}

/-- The segments between the commas of the text denote the values, in order. -/
def Lists (cs : List Char) (as : List α) : Prop :=
  ∃ segments, Text.Segments ',' segments cs ∧
    List.Forall₂ (fun segment a => read? segment = some a) segments as

/-- A list is read segment by segment. -/
theorem readList?_eq_some_iff_forall₂ : readList? α sep cs = some as ↔
    sep ≠ [] ∧ List.Forall₂ (fun segment a => read? segment = some a) (Text.splitOn sep cs) as := by
  rw [readList?]
  split <;> simp [*, mapM_eq_some_iff]

theorem readList?_eq_some_iff : readList? α [','] cs = some as ↔ Lists cs as := by
  rw [readList?_eq_some_iff_forall₂]
  simp only [ne_eq, List.cons_ne_nil, not_false_eq_true, true_and, Lists, Text.segments_iff,
    exists_eq_left']

theorem Lists.ne_nil (h : Lists cs as) : as ≠ [] := by
  obtain ⟨segments, hsegments, hread⟩ := h
  rintro rfl
  rw [List.forall₂_nil_right_iff] at hread
  exact hsegments.ne_nil hread

theorem writeList_nil : writeList sep ([] : List α) = [] := rfl

theorem writeList_singleton {a : α} : writeList sep [a] = write a := by
  simp [writeList, List.intercalate]

theorem writeList_cons_cons {a b : α} :
    writeList sep (a :: b :: as) = write a ++ sep ++ writeList sep (b :: as) :=
  Text.intercalate_cons (by simp)

theorem toList_intercalate_text (sep : String) (as : List α) :
    (sep.intercalate (as.map text)).toList = writeList sep.toList as := by
  rw [String.toList_intercalate, List.map_map, writeList]
  congr 1
  exact List.map_congr_left fun a _ => toList_text a

/-- A list is written with the characters of its separator and of its values. -/
theorem mem_of_mem_writeList {c : Char} (h : c ∈ writeList sep as) :
    c ∈ sep ∨ ∃ a ∈ as, c ∈ write a := by
  induction as with
  | nil => simp [writeList_nil] at h
  | cons a as ih =>
    cases as with
    | nil =>
      rw [writeList_singleton] at h
      exact .inr ⟨a, List.mem_cons_self, h⟩
    | cons b as =>
      rw [writeList_cons_cons] at h
      grind

end Written

end Workdays
