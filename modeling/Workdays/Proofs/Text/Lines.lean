import Workdays.Text.Lines

/-!
# Cutting texts into lines

The lines of a text are its pieces between line feeds. A piece that a line feed ends loses one
carriage return at its end, the last piece loses nothing, and is no line if it is empty. So the
lines of a text with a line break in it are those before the break and those after it, and every
line feed counts for one line.

## Main definitions

* `Text.dropReturn`: a line without the carriage return at its end.
* `Text.IsBreak`: the line breaks.
* `Text.HasLines`: the lines of a text, piece by piece.
-/

namespace Workdays.Text

variable {text line rest : List Char} {ls : List (List Char)} {c : Char}

/-- A line without the carriage return at its end, if there is one. -/
def dropReturn (line : List Char) : List Char :=
  if line.getLast? = some '\r' then line.dropLast else line

/-- A line feed, or a carriage return with a line feed right after it. -/
def IsBreak (br : List Char) : Prop := br = ['\n'] ∨ br = ['\r', '\n']

/-- The lines of a text: each line feed ends one, and what follows the last line feed is one unless
it is empty. -/
inductive HasLines : List Char → List (List Char) → Prop
  | empty : HasLines [] []
  | last {line : List Char} : line ≠ [] → '\n' ∉ line → HasLines line [line]
  | ended {line rest : List Char} {ls : List (List Char)} :
      '\n' ∉ line → HasLines rest ls → HasLines (line ++ '\n' :: rest) (dropReturn line :: ls)

/-! ## Carriage returns -/

theorem dropReturn_of_getLast? (h : line.getLast? ≠ some '\r') : dropReturn line = line := if_neg h

theorem dropReturn_append_return (line : List Char) : dropReturn (line ++ ['\r']) = line := by
  simp [dropReturn]

theorem dropReturn_cons (h : line ≠ []) : dropReturn (c :: line) = c :: dropReturn line := by
  obtain ⟨d, line, rfl⟩ := List.exists_cons_of_ne_nil h
  simp only [dropReturn, List.getLast?_cons_cons, List.dropLast_cons_cons]
  split <;> rfl

/-! ## One line after another -/

/-- A character that is no part of a line break belongs to the first line. -/
theorem lines_cons (hc : c ≠ '\n') (hbreak : c = '\r' → rest.head? ≠ some '\n') :
    lines (c :: rest) = consLine c (lines rest) := by
  rw [lines]
  · exact hc
  · rintro cs hr rfl
    exact hbreak hr rfl

theorem lines_of_notMem (hne : line ≠ []) (h : '\n' ∉ line) : lines line = [line] := by
  induction line with
  | nil => contradiction
  | cons c line ih =>
    obtain ⟨hc, hline⟩ : '\n' ≠ c ∧ '\n' ∉ line := by simpa using h
    have hhead : line.head? ≠ some '\n' := fun hn => hline (List.mem_of_mem_head? hn)
    rw [lines_cons (Ne.symm hc) fun _ => hhead]
    cases line with
    | nil => rfl
    | cons d line => rw [ih (List.cons_ne_nil d line) hline, consLine]

theorem lines_append_newline (h : '\n' ∉ line) (rest : List Char) :
    lines (line ++ '\n' :: rest) = dropReturn line :: lines rest := by
  induction line with
  | nil => rfl
  | cons c line ih =>
    obtain ⟨hc, hline⟩ : '\n' ≠ c ∧ '\n' ∉ line := by simpa using h
    cases line with
    | nil =>
      -- only here can the line feed be part of a longer break
      by_cases hr : c = '\r'
      · subst hr
        rfl
      · rw [List.cons_append, lines_cons (Ne.symm hc) (absurd · hr), List.nil_append, lines,
          consLine, dropReturn_of_getLast? (by simpa using hr)]
    | cons d line =>
      have hd : d ≠ '\n' := by
        rintro rfl
        simp at hline
      rw [List.cons_append, lines_cons (Ne.symm hc) (fun _ => by simpa using hd), ih hline,
        dropReturn_cons (List.cons_ne_nil d line), consLine]

theorem hasLines_lines (text : List Char) : HasLines text (lines text) := by
  by_cases h : '\n' ∈ text
  · obtain ⟨line, rest, rfl, hline⟩ := List.eq_append_cons_of_mem h
    rw [lines_append_newline hline]
    exact .ended hline (hasLines_lines rest)
  · by_cases hne : text = []
    · subst hne
      exact .empty
    · rw [lines_of_notMem hne h]
      exact .last hne h
termination_by text.length

/-- A text has one list of lines. -/
theorem hasLines_iff : HasLines text ls ↔ ls = lines text := by
  constructor
  · intro h
    induction h with
    | empty => rfl
    | last hne hline => rw [lines_of_notMem hne hline]
    | ended hline _ ih => rw [lines_append_newline hline, ih]
  · rintro rfl
    exact hasLines_lines text

/-- Lines without a line break in them are read back when each is ended by a line feed. -/
theorem lines_flatMap_newline (h : ∀ line ∈ ls, '\n' ∉ line ∧ '\r' ∉ line) :
    lines (ls.flatMap fun line => line ++ ['\n']) = ls := by
  induction ls with
  | nil => rfl
  | cons line ls ih =>
    obtain ⟨⟨hn, hr⟩, hlines⟩ := List.forall_mem_cons.1 h
    have hlast : line.getLast? ≠ some '\r' := fun h => hr (List.mem_of_getLast? h)
    rw [List.flatMap_cons, List.append_assoc, List.singleton_append, lines_append_newline hn,
      dropReturn_of_getLast? hlast, ih hlines]

/-- One line feed is counted for each line that it ends. -/
theorem count_flatMap_newline (h : ∀ line ∈ ls, '\n' ∉ line) :
    (ls.flatMap fun line => line ++ ['\n']).count '\n' = ls.length := by
  induction ls with
  | nil => rfl
  | cons line ls ih =>
    obtain ⟨hline, hlines⟩ := List.forall_mem_cons.1 h
    rw [List.flatMap_cons, List.count_append, List.count_append, List.count_eq_zero.2 hline,
      ih hlines, List.length_cons, Nat.zero_add, List.count_singleton_self, Nat.add_comm]

/-! ## Line breaks between texts -/

theorem lines_append_break {br : List Char} (h : '\n' ∉ line) (hlast : line.getLast? ≠ some '\r')
    (hbr : IsBreak br) (rest : List Char) : lines (line ++ (br ++ rest)) = line :: lines rest := by
  obtain rfl | rfl := hbr
  · rw [List.singleton_append, lines_append_newline h, dropReturn_of_getLast? hlast]
  · have hreturn : '\n' ∉ line ++ ['\r'] := by simp [h]
    have hcut : line ++ (['\r', '\n'] ++ rest) = line ++ ['\r'] ++ '\n' :: rest := by simp
    rw [hcut, lines_append_newline hreturn, dropReturn_append_return]

/-- A line break between two texts comes between their lines. Where the first text is empty or ends
with a line break itself, an empty line stands between them, so there are as many lines up to the
break as there are line feeds. -/
theorem exists_lines_append_break (h : text.getLast? ≠ some '\r') :
    ∃ gap, (∀ line ∈ gap, line = []) ∧ (lines text ++ gap).length = text.count '\n' + 1 ∧
      ∀ br rest, IsBreak br → lines (text ++ (br ++ rest)) = lines text ++ gap ++ lines rest := by
  -- by induction on the pieces of the first text, of which only the last one meets the break
  have hlines := hasLines_lines text
  generalize lines text = ls at hlines
  induction hlines with
  | empty =>
    refine ⟨[[]], by simp, rfl, fun br rest hbr => ?_⟩
    exact lines_append_break List.not_mem_nil (by simp) hbr rest
  | last hne hline =>
    refine ⟨[], nofun, by simp [List.count_eq_zero_of_not_mem hline], fun br rest hbr => ?_⟩
    exact lines_append_break hline h hbr rest
  | @ended line rest' ls hline hrest ih =>
    have hlast : rest'.getLast? ≠ some '\r' := by
      cases rest' with
      | nil => simp
      | cons c rest' => simpa [List.getLast?_append] using h
    obtain ⟨gap, hgap, hlength, hbreak⟩ := ih hlast
    refine ⟨gap, hgap, ?_, fun br rest hbr => ?_⟩
    · rw [List.cons_append, List.length_cons, hlength]
      simp [List.count_eq_zero_of_not_mem hline]
    · rw [List.append_assoc, List.cons_append, lines_append_newline hline, hbreak br rest hbr]
      rfl

end Workdays.Text
