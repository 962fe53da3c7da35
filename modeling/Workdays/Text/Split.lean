/-!
# Splitting at a separator

A text is cut at the first or at the last place where a separator stands, or at every place, from
left to right and without overlap. Joining the segments with the separator gives the text back.

## Main definitions

* `Text.splitFirst?`, `Text.splitLast?`: the two sides of one cut.
* `Text.splitOn`: the segments between all cuts.
-/

namespace Workdays.Text

/-- The two sides of the first occurrence of a separator. -/
def splitFirst? (sep : List Char) : List Char → Option (List Char × List Char)
  | [] => (sep.isPrefixOf? []).map ([], ·)
  | c :: cs =>
    match sep.isPrefixOf? (c :: cs) with
    | some rest => some ([], rest)
    | none => (splitFirst? sep cs).map fun (front, rest) => (c :: front, rest)

/-- The two sides of the last occurrence of a character. -/
def splitLast? (sep : Char) : List Char → Option (List Char × List Char)
  | [] => none
  | c :: cs =>
    match splitLast? sep cs with
    | some (front, rest) => some (c :: front, rest)
    | none => if c = sep then some ([], cs) else none

theorem isPrefixOf?_cons_cons (l c : Char) (lead text : List Char) :
    (l :: lead).isPrefixOf? (c :: text) = if l == c then lead.isPrefixOf? text else none := rfl

theorem isPrefixOf?_cons_of_ne {l c : Char} (h : l ≠ c) (lead text : List Char) :
    (l :: lead).isPrefixOf? (c :: text) = none := by
  rw [isPrefixOf?_cons_cons, if_neg (by simpa using h)]

theorem isPrefixOf?_eq_some_iff {lead text rest : List Char} :
    lead.isPrefixOf? text = some rest ↔ text = lead ++ rest := by
  induction lead generalizing text with
  | nil =>
    change some text = some rest ↔ _
    simp
  | cons l lead ih =>
    cases text with
    | nil =>
      change none = some rest ↔ _
      simp
    | cons c text =>
      by_cases h : l = c
      · subst h
        rw [isPrefixOf?_cons_cons, if_pos (by simp), ih, List.cons_append, List.cons.injEq]
        simp
      · simp [isPrefixOf?_cons_of_ne h, Ne.symm h]

theorem isSuffixOf?_eq_some_iff {tail text rest : List Char} :
    tail.isSuffixOf? text = some rest ↔ text = rest ++ tail := by
  change (tail.reverse.isPrefixOf? text.reverse).map List.reverse = some rest ↔ _
  rw [Option.map_eq_some_iff]
  constructor
  · rintro ⟨front, h, rfl⟩
    rw [isPrefixOf?_eq_some_iff] at h
    simpa using congrArg List.reverse h
  · rintro rfl
    exact ⟨rest.reverse, isPrefixOf?_eq_some_iff.2 List.reverse_append, List.reverse_reverse rest⟩

/-- A cut loses nothing but the separator. -/
theorem eq_append_of_splitFirst? {sep text front rest : List Char}
    (h : splitFirst? sep text = some (front, rest)) : text = front ++ sep ++ rest := by
  fun_induction splitFirst? sep text generalizing front rest with
  | case1 =>
    simp only [Option.map_eq_some_iff, isPrefixOf?_eq_some_iff, Prod.mk.injEq] at h
    grind
  | case2 c cs rest' h' => grind [isPrefixOf?_eq_some_iff]
  | case3 c cs h' ih =>
    simp only [Option.map_eq_some_iff, Prod.exists, Prod.mk.injEq] at h
    grind

theorem eq_append_of_splitLast? {sep : Char} {text front rest : List Char}
    (h : splitLast? sep text = some (front, rest)) : text = front ++ sep :: rest := by
  fun_induction splitLast? sep text generalizing front rest <;> grind

theorem length_lt_of_splitFirst? {sep text front rest : List Char} (hsep : sep ≠ [])
    (h : splitFirst? sep text = some (front, rest)) : rest.length < text.length := by
  have := List.length_pos_iff.2 hsep
  have := congrArg List.length (eq_append_of_splitFirst? h)
  grind

/-- The segments of a text between the occurrences of a separator, found from left to right. The
empty separator cuts nowhere. -/
def splitOn (sep text : List Char) : List (List Char) :=
  if _ : sep = [] then [text] else
    match _ : splitFirst? sep text with
    | none => [text]
    | some (front, rest) => front :: splitOn sep rest
termination_by text.length
decreasing_by exact length_lt_of_splitFirst? ‹_› ‹_›

theorem splitOn_ne_nil (sep text : List Char) : splitOn sep text ≠ [] := by
  rw [splitOn]
  split
  · simp
  · split <;> simp

theorem intercalate_cons {sep segment : List Char} {segments : List (List Char)}
    (h : segments ≠ []) :
    sep.intercalate (segment :: segments) = segment ++ sep ++ sep.intercalate segments := by
  cases segments with
  | nil => contradiction
  | cons next segments => simp [List.intercalate]

/-- Joining the segments gives the text back. -/
theorem intercalate_splitOn (sep text : List Char) :
    sep.intercalate (splitOn sep text) = text := by
  fun_induction splitOn sep text with
  | case1 => simp [List.intercalate]
  | case2 => simp [List.intercalate]
  | case3 text hsep front rest h ih =>
    rw [intercalate_cons (splitOn_ne_nil sep rest), ih]
    exact (eq_append_of_splitFirst? h).symm

end Workdays.Text
