/-!
# Blanks

The white space that separates the parts of a line, and the removal of it from the front of a text.
A text is blank when it holds nothing else.

## Main definitions

* `Text.isBlank`: the characters with the Unicode property `White_Space`.
* `Text.dropBlanks`: a text without the blanks at its front.
* `Text.AllBlank`: the texts that hold blanks only.
-/

namespace Workdays.Text

/-- The code points with the property `White_Space`, as inclusive ranges in increasing order. -/
def blankRanges : List (Nat × Nat) :=
  [(0x09, 0x0D), (0x20, 0x20), (0x85, 0x85), (0xA0, 0xA0), (0x1680, 0x1680), (0x2000, 0x200A),
    (0x2028, 0x2029), (0x202F, 0x202F), (0x205F, 0x205F), (0x3000, 0x3000)]

def isBlank (c : Char) : Bool :=
  blankRanges.any fun range => range.1 ≤ c.toNat && c.toNat ≤ range.2

def dropBlanks (cs : List Char) : List Char := cs.dropWhile isBlank

/-- A text without any character but blanks; the empty text is one. -/
def AllBlank (cs : List Char) : Prop := ∀ c ∈ cs, isBlank c

instance (cs : List Char) : Decidable (AllBlank cs) := List.decidableBAll _ cs

theorem isBlank_eq_false_of_isDigit {c : Char} (h : c.isDigit) : isBlank c = false := by
  have h₁ : 48 ≤ c.toNat ∧ c.toNat ≤ 57 := by
    simp only [Char.isDigit, Bool.and_eq_true, decide_eq_true_eq] at h
    exact ⟨h.1, h.2⟩
  simp only [isBlank, blankRanges, List.any_cons, List.any_nil, Bool.or_false,
    Bool.or_eq_false_iff, Bool.and_eq_false_iff, decide_eq_false_iff_not]
  omega

@[simp] theorem dropBlanks_nil : dropBlanks [] = [] := rfl

theorem dropBlanks_cons (c : Char) (cs : List Char) :
    dropBlanks (c :: cs) = if isBlank c then dropBlanks cs else c :: cs := by
  simp only [dropBlanks, List.dropWhile_cons]

theorem dropBlanks_eq_nil_iff {cs : List Char} : dropBlanks cs = [] ↔ AllBlank cs := by
  induction cs with
  | nil => simp [AllBlank]
  | cons c cs ih =>
    rw [dropBlanks_cons]
    split <;> simp_all [AllBlank]

/-- Blanks in front of a text do not change what remains of it. -/
theorem dropBlanks_append {bs : List Char} (h : AllBlank bs) (cs : List Char) :
    dropBlanks (bs ++ cs) = dropBlanks cs := by
  induction bs with
  | nil => rfl
  | cons b bs ih =>
    rw [List.cons_append, dropBlanks_cons, if_pos (h b (by simp))]
    exact ih fun c hc => h c (by simp [hc])

end Workdays.Text
