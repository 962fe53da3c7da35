import Workdays.Proofs.Rule.Description
import Workdays.Text.Split

/-!
# Layout of lines

A line is laid out as four fields with gaps between them and a tail, which holds the description,
the working periods and the comment. The reader takes as much as it can of each part and never goes
back. This loses no layout, since what may follow a part cannot be taken for more of it; only a tail
without a description whose periods start like one is left out.

## Main definitions

* `LineParts.IsField`: the texts that can be a field.
* `LineParts.Tail`: what can follow the four fields.
* `LineParts.Layout`: the lines that have given parts.
* `LineParts.Describes`: the lines in which a description starts after four fields.
-/

namespace Workdays

namespace LineParts

/-- One character or more, none of them a blank or a `#`. -/
def IsField (cs : List Char) : Prop := cs ≠ [] ∧ ∀ c ∈ cs, Text.isBlank c = false ∧ c ≠ '#'

/-- The text is empty or starts with a character that is in no field. -/
def EndsField (rest : List Char) : Prop := ∀ c ∈ rest.head?, Text.isBlank c ∨ c = '#'

/-- A description in its brackets, or nothing. -/
def bracketed : Option (List Char) → List Char
  | none => []
  | some text => '[' :: '[' :: (text ++ [']', ']'])

/-- The text starts with a description: brackets, and what can follow the closing ones. -/
def StartsDescription (cs : List Char) : Prop :=
  ∃ text rest, cs = bracketed (some text) ++ rest ∧ Description.Closes rest

/-- What follows the four fields: a gap, the description, blanks and the periods, or nothing, and
then the end of the line. -/
inductive Tail : (description periods : Option (List Char)) → List Char → Prop
  | bare {rest : List Char} : IsEnd rest → Tail none none rest
  | parts {description periods : Option (List Char)} {gap₁ gap₂ rest : List Char} :
      Text.IsGap gap₁ → Text.AllBlank gap₂ → (∀ field ∈ periods, IsField field) → IsEnd rest →
      (∀ text ∈ description, Description.Closes (gap₂ ++ (periods.getD [] ++ rest)) ∧
        ¬ Description.EndsWithin text (gap₂ ++ (periods.getD [] ++ rest))) →
      Tail description periods
        (gap₁ ++ (bracketed description ++ (gap₂ ++ (periods.getD [] ++ rest))))

/-- The line has the parts, with gaps between its fields and perhaps blanks in front. -/
inductive Layout (p : LineParts) (line : List Char) : Prop
  | intro {lead gap₁ gap₂ gap₃ tail : List Char} :
      Text.AllBlank lead → IsField p.year → Text.IsGap gap₁ → IsField p.month →
      Text.IsGap gap₂ → IsField p.dayOfMonth → Text.IsGap gap₃ → IsField p.dayOfWeek →
      Tail p.description p.periods tail →
      line = lead ++ (p.year ++ (gap₁ ++ (p.month ++ (gap₂ ++ (p.dayOfMonth ++
        (gap₃ ++ (p.dayOfWeek ++ tail))))))) →
      Layout p line

/-- A description starts after four fields of the line. -/
inductive Describes (line : List Char) : Prop
  | intro {lead year gap₁ month gap₂ dayOfMonth gap₃ dayOfWeek gap₄ rest : List Char} :
      Text.AllBlank lead → IsField year → Text.IsGap gap₁ → IsField month →
      Text.IsGap gap₂ → IsField dayOfMonth → Text.IsGap gap₃ → IsField dayOfWeek →
      Text.IsGap gap₄ → StartsDescription rest →
      line = lead ++ (year ++ (gap₁ ++ (month ++ (gap₂ ++ (dayOfMonth ++
        (gap₃ ++ (dayOfWeek ++ (gap₄ ++ rest)))))))) →
      Describes line

variable {cs rest field gap : List Char}

/-! ## Fields -/

theorem isFieldChar_iff {c : Char} :
    isFieldChar c = true ↔ Text.isBlank c = false ∧ c ≠ '#' := by
  simp [isFieldChar]

theorem takeField?_eq_some_iff :
    takeField? cs = some (field, rest) ↔ cs = field ++ rest ∧ IsField field ∧ EndsField rest := by
  unfold takeField?
  constructor
  · intro h
    split at h
    · cases h
    · next hne =>
      cases h
      refine ⟨List.takeWhile_append_dropWhile.symm, ⟨hne, ?_⟩, ?_⟩
      · intro c hc
        exact isFieldChar_iff.1 (List.all_eq_true.1 List.all_takeWhile c hc)
      · intro c hc
        have hnot := List.head?_dropWhile_not isFieldChar cs
        rw [Option.mem_def.1 hc] at hnot
        simpa [isFieldChar, Decidable.or_iff_not_imp_left] using hnot
  · intro h
    obtain ⟨rfl, ⟨hne, hfield⟩, hrest⟩ := h
    have hall : ∀ c ∈ field, isFieldChar c = true := fun c hc => isFieldChar_iff.2 (hfield c hc)
    have hstop : rest.takeWhile isFieldChar = [] ∧ rest.dropWhile isFieldChar = rest := by
      cases rest with
      | nil => simp
      | cons c rest =>
        have hc : isFieldChar c = false := by
          rw [← Bool.not_eq_true, isFieldChar_iff]
          have := hrest c rfl
          grind
        simp [hc]
    rw [List.takeWhile_append_of_pos hall, List.dropWhile_append_of_pos hall, hstop.1, hstop.2,
      List.append_nil, if_neg hne]

theorem takeField?_eq_none (h : EndsField cs) : takeField? cs = none := by
  apply Option.eq_none_iff_forall_ne_some.2
  rintro ⟨field, rest⟩ hf
  obtain ⟨rfl, ⟨hne, hfield⟩, -⟩ := takeField?_eq_some_iff.1 hf
  obtain ⟨c, field, rfl⟩ := List.exists_cons_of_ne_nil hne
  have := h c rfl
  have := hfield c (by simp)
  simp_all

theorem IsField.dropBlanks_append (h : IsField field) (rest : List Char) :
    Text.dropBlanks (field ++ rest) = field ++ rest := by
  obtain ⟨hne, hfield⟩ := h
  obtain ⟨c, field, rfl⟩ := List.exists_cons_of_ne_nil hne
  exact Text.dropBlanks_cons_of_not (hfield c (by simp)).1

theorem skipBlanks?_eq_some_iff :
    skipBlanks? cs = some rest ↔
      ∃ gap, Text.IsGap gap ∧ cs = gap ++ rest ∧ Text.dropBlanks rest = rest := by
  cases cs with
  | nil =>
    simp only [skipBlanks?, reduceCtorEq, false_iff]
    intro h
    obtain ⟨gap, ⟨hne, -⟩, heq, -⟩ := h
    exact hne (List.append_eq_nil_iff.1 heq.symm).1
  | cons c cs =>
    by_cases hc : Text.isBlank c
    · rw [skipBlanks?, if_pos hc, Option.some.injEq]
      constructor
      · rintro rfl
        obtain ⟨gap, hgap, hcs⟩ := Text.exists_eq_append_dropBlanks cs
        refine ⟨c :: gap, ⟨by simp, ?_⟩, congrArg (c :: ·) hcs, Text.dropBlanks_dropBlanks cs⟩
        exact List.forall_mem_cons.2 ⟨hc, hgap⟩
      · intro h
        obtain ⟨gap, ⟨hne, hgap⟩, heq, hrest⟩ := h
        obtain ⟨b, gap, rfl⟩ := List.exists_cons_of_ne_nil hne
        rw [List.cons_append] at heq
        cases heq
        rw [Text.dropBlanks_append (List.forall_mem_cons.1 hgap).2, hrest]
    · rw [skipBlanks?, if_neg hc]
      refine ⟨nofun, ?_⟩
      intro h
      obtain ⟨gap, ⟨hne, hgap⟩, heq, -⟩ := h
      obtain ⟨b, gap, rfl⟩ := List.exists_cons_of_ne_nil hne
      cases heq
      exact absurd (hgap c (by simp)) hc

theorem takeNextField?_eq_some_iff :
    takeNextField? cs = some (field, rest) ↔ ∃ gap, Text.IsGap gap ∧ IsField field ∧
      cs = gap ++ (field ++ rest) ∧ EndsField rest := by
  simp only [takeNextField?, Option.bind_eq_some_iff, skipBlanks?_eq_some_iff,
    takeField?_eq_some_iff]
  constructor
  · intro h
    obtain ⟨_, ⟨gap, hgap, rfl, -⟩, rfl, hfield, hrest⟩ := h
    exact ⟨gap, hgap, hfield, rfl, hrest⟩
  · intro h
    obtain ⟨gap, hgap, hfield, rfl, hrest⟩ := h
    exact ⟨_, ⟨gap, hgap, rfl, hfield.dropBlanks_append rest⟩, rfl, hfield, hrest⟩

/-! ## The end of a line -/

theorem isEnd_iff : IsEnd cs ↔
    Text.dropBlanks cs = [] ∨ ∃ text, Text.dropBlanks cs = '#' :: text := by
  constructor
  · intro h
    obtain ⟨hgap⟩ | ⟨hgap⟩ := h
    · exact .inl (Text.dropBlanks_eq_nil hgap)
    · rw [Text.dropBlanks_append hgap, Text.dropBlanks_cons_of_not (by decide)]
      exact .inr ⟨_, rfl⟩
  · obtain ⟨gap, hgap, hcs⟩ := Text.exists_eq_append_dropBlanks cs
    intro h
    obtain h | ⟨text, h⟩ := h
    · exact .blank (Text.dropBlanks_eq_nil_iff.1 h)
    · rw [hcs, h]
      exact .comment hgap

theorem isLineEnd_iff : isLineEnd cs = true ↔ IsEnd cs := by
  rw [isLineEnd, isEnd_iff]
  split <;> simp_all

theorem IsEnd.endsField (h : IsEnd cs) : EndsField cs := by
  intro c hc
  rcases h with ⟨hgap⟩ | @⟨gap, text, hgap⟩
  · exact .inl (hgap c (List.mem_of_mem_head? hc))
  · cases gap with
    | nil => exact .inr (by simpa using hc.symm)
    | cons b gap => exact .inl (hgap c (by simp_all))

theorem EndsField.of_isGap (h : Text.IsGap gap) (rest : List Char) : EndsField (gap ++ rest) := by
  obtain ⟨hne, hgap⟩ := h
  obtain ⟨b, gap, rfl⟩ := List.exists_cons_of_ne_nil hne
  rintro c ⟨⟩
  exact .inl (hgap b (by simp))

theorem Tail.endsField {description periods : Option (List Char)}
    (h : Tail description periods cs) : EndsField cs := by
  cases h with
  | bare hend => exact hend.endsField
  | parts hgap => exact .of_isGap hgap _

/-! ## The tail of a line -/

variable {description periods : Option (List Char)}

theorem takeDescription_eq_some {text : List Char}
    (h : takeDescription cs = (some text, rest)) :
    cs = bracketed (some text) ++ rest ∧ Description.Closes rest ∧
      ¬ Description.EndsWithin text rest := by
  unfold takeDescription at h
  split at h
  · next text' rest' hd =>
    cases h
    obtain ⟨inner, hinner, htake⟩ := Option.bind_eq_some_iff.1 hd
    obtain ⟨rfl, hrest, hends⟩ := takeDescribed?_eq_some_iff.1 htake
    rw [Text.isPrefixOf?_eq_some_iff.1 hinner]
    exact ⟨by simp [bracketed], hrest, hends⟩
  · cases h

theorem takeDescription_eq_none (h : takeDescription cs = (none, rest)) : rest = cs := by
  unfold takeDescription at h
  split at h <;> cases h
  rfl

theorem isPrefixOf?_bracketed (text rest : List Char) :
    ['[', '['].isPrefixOf? (bracketed (some text) ++ rest) = some (text ++ ']' :: ']' :: rest) := by
  rw [Text.isPrefixOf?_eq_some_iff]
  simp [bracketed]

theorem takeDescription_bracketed {text : List Char} (hrest : Description.Closes rest)
    (hends : ¬ Description.EndsWithin text rest) :
    takeDescription (bracketed (some text) ++ rest) = (some text, rest) := by
  have htake := takeDescribed?_eq_some_iff.2 ⟨rfl, hrest, hends⟩
  rw [takeDescription, isPrefixOf?_bracketed, Option.bind_some, htake]

theorem head?_of_startsDescription (h : StartsDescription cs) : cs.head? = some '[' := by
  obtain ⟨text, rest, rfl, -⟩ := h
  rfl

theorem StartsDescription.dropBlanks_eq (h : StartsDescription cs) : Text.dropBlanks cs = cs := by
  obtain ⟨text, rest, rfl, -⟩ := h
  exact Text.dropBlanks_cons_of_not (by decide)

theorem takeDescription_of_startsDescription (h : StartsDescription cs) :
    ∃ text rest, takeDescription cs = (some text, rest) := by
  obtain ⟨text, rest, rfl, hrest⟩ := h
  obtain ⟨sides, hsides⟩ := exists_takeDescribed?_eq_some text hrest
  refine ⟨sides.1, sides.2, ?_⟩
  rw [takeDescription, isPrefixOf?_bracketed, Option.bind_some, hsides]

theorem takeDescription_of_not_startsDescription (h : ¬ StartsDescription cs) :
    takeDescription cs = (none, cs) := by
  rcases hd : takeDescription cs with ⟨_ | text, rest⟩
  · rw [takeDescription_eq_none hd]
  · obtain ⟨hcs, hrest, -⟩ := takeDescription_eq_some hd
    exact absurd ⟨text, rest, hcs, hrest⟩ h

theorem takePeriods_eq (h : takePeriods cs = (periods, rest)) :
    cs = periods.getD [] ++ rest ∧ ∀ field ∈ periods, IsField field := by
  unfold takePeriods at h
  split at h
  · next field rest' hf =>
    cases h
    obtain ⟨rfl, hfield, -⟩ := takeField?_eq_some_iff.1 hf
    exact ⟨rfl, by simpa using hfield⟩
  · cases h
    exact ⟨rfl, by simp⟩

theorem takePeriods_append (hperiods : ∀ field ∈ periods, IsField field) (hrest : IsEnd rest) :
    ∃ after, takePeriods (Text.dropBlanks (periods.getD [] ++ rest)) = (periods, after) ∧
      IsEnd after := by
  cases periods with
  | none =>
    have hafter : IsEnd (Text.dropBlanks rest) := by
      rwa [isEnd_iff, Text.dropBlanks_dropBlanks, ← isEnd_iff]
    refine ⟨Text.dropBlanks rest, ?_, hafter⟩
    rw [Option.getD_none, List.nil_append, takePeriods, takeField?_eq_none hafter.endsField]
  | some field =>
    have hfield := hperiods field rfl
    refine ⟨rest, ?_, hrest⟩
    rw [Option.getD_some, hfield.dropBlanks_append, takePeriods,
      takeField?_eq_some_iff.2 ⟨rfl, hfield, hrest.endsField⟩]

/-- What the reader takes after the fields is laid out as a tail. -/
theorem tail_of_takeOptionalParts (h : takeOptionalParts cs = (description, periods, rest))
    (hend : IsEnd rest) : Tail description periods cs := by
  unfold takeOptionalParts at h
  cases hskip : skipBlanks? cs with
  | none =>
    rw [hskip] at h
    cases h
    exact .bare hend
  | some body =>
    obtain ⟨gap₁, hgap₁, rfl, -⟩ := skipBlanks?_eq_some_iff.1 hskip
    rcases hd : takeDescription body with ⟨description', after⟩
    rcases hp : takePeriods (Text.dropBlanks after) with ⟨periods', rest'⟩
    simp only [hskip, hd, hp] at h
    cases h
    obtain ⟨gap₂, hgap₂, hafter⟩ := Text.exists_eq_append_dropBlanks after
    obtain ⟨hfield, hperiods⟩ := takePeriods_eq hp
    rw [hfield] at hafter
    subst hafter
    cases description with
    | none =>
      obtain rfl := takeDescription_eq_none hd
      have h : Tail none _ _ := .parts hgap₁ hgap₂ hperiods hend nofun
      exact h
    | some text =>
      obtain ⟨rfl, hcloses, hends⟩ := takeDescription_eq_some hd
      apply Tail.parts hgap₁ hgap₂ hperiods hend
      rintro _ ⟨⟩
      exact ⟨hcloses, hends⟩

theorem takeOptionalParts_gap_append (hgap : Text.IsGap gap) (cs : List Char) :
    takeOptionalParts (gap ++ cs) =
      ((takeDescription (Text.dropBlanks cs)).1,
        takePeriods (Text.dropBlanks (takeDescription (Text.dropBlanks cs)).2)) := by
  have hskip : skipBlanks? (gap ++ cs) = some (Text.dropBlanks cs) := by
    obtain ⟨gap', hgap', hcs⟩ := Text.exists_eq_append_dropBlanks cs
    refine skipBlanks?_eq_some_iff.2 ⟨gap ++ gap', ⟨?_, hgap.2.append hgap'⟩, ?_, ?_⟩
    · exact List.append_ne_nil_of_left_ne_nil hgap.1 _
    · rw [List.append_assoc, ← hcs]
    · exact Text.dropBlanks_dropBlanks cs
  rw [takeOptionalParts, hskip]

theorem takeOptionalParts_parts {gap₁ gap₂ : List Char} (hgap₁ : Text.IsGap gap₁)
    (hgap₂ : Text.AllBlank gap₂) (hperiods : ∀ field ∈ periods, IsField field) (hend : IsEnd rest)
    (hdescription : ∀ text ∈ description,
      Description.Closes (gap₂ ++ (periods.getD [] ++ rest)) ∧
        ¬ Description.EndsWithin text (gap₂ ++ (periods.getD [] ++ rest)))
    (hopen : description = none → ¬ StartsDescription (Text.dropBlanks (periods.getD [] ++ rest))) :
    ∃ after, takeOptionalParts
        (gap₁ ++ (bracketed description ++ (gap₂ ++ (periods.getD [] ++ rest)))) =
      (description, periods, after) ∧ IsEnd after := by
  obtain ⟨after, hafter, hend'⟩ := takePeriods_append hperiods hend
  refine ⟨after, ?_, hend'⟩
  rw [takeOptionalParts_gap_append hgap₁]
  cases description with
  | none =>
    rw [bracketed, List.nil_append, Text.dropBlanks_append hgap₂,
      takeDescription_of_not_startsDescription (hopen rfl), Text.dropBlanks_dropBlanks, hafter]
  | some text =>
    obtain ⟨hcloses, hends⟩ := hdescription text rfl
    have hdrop : Text.dropBlanks (bracketed (some text) ++ (gap₂ ++ (periods.getD [] ++ rest))) =
        bracketed (some text) ++ (gap₂ ++ (periods.getD [] ++ rest)) :=
      Text.dropBlanks_cons_of_not (by decide)
    rw [hdrop, takeDescription_bracketed hcloses hends, Text.dropBlanks_append hgap₂, hafter]

/-- A tail is taken part by part, unless its periods would be taken for a description. -/
theorem takeOptionalParts_of_tail (h : Tail description periods cs)
    (hopen : description = none → ¬ StartsDescription (Text.dropBlanks cs)) :
    ∃ rest, takeOptionalParts cs = (description, periods, rest) ∧ IsEnd rest := by
  cases h with
  | bare hend =>
    cases hskip : skipBlanks? cs with
    | none => exact ⟨cs, by simp [takeOptionalParts, hskip], hend⟩
    | some body =>
      -- a blank at the end of a line sets off parts that are missing
      obtain ⟨gap, hgap, rfl, -⟩ := skipBlanks?_eq_some_iff.1 hskip
      rw [isEnd_iff, Text.dropBlanks_append hgap.2, ← isEnd_iff] at hend
      rw [Text.dropBlanks_append hgap.2] at hopen
      have hnil : Text.AllBlank [] := nofun
      have h : ∃ rest, takeOptionalParts (gap ++ (bracketed none ++ ([] ++
          (none.getD [] ++ body)))) = (none, none, rest) ∧ IsEnd rest :=
        takeOptionalParts_parts hgap hnil nofun hend nofun hopen
      exact h
  | parts hgap₁ hgap₂ hperiods hend hdescription =>
    refine takeOptionalParts_parts hgap₁ hgap₂ hperiods hend hdescription ?_
    rintro rfl
    rw [bracketed, List.nil_append, Text.dropBlanks_append hgap₁.2,
      Text.dropBlanks_append hgap₂] at hopen
    exact hopen rfl

/-- A tail without a description starts like its periods, or like the end of a line. -/
theorem Tail.head?_dropBlanks (h : Tail none periods cs)
    (hopen : ∀ field ∈ periods, field.head? ≠ some '[') :
    (Text.dropBlanks cs).head? ≠ some '[' := by
  have hisEnd {rest : List Char} (hend : IsEnd rest) :
      (Text.dropBlanks rest).head? ≠ some '[' := by
    obtain h | ⟨text, h⟩ := isEnd_iff.1 hend <;> simp [h]
  cases h with
  | bare hend => exact hisEnd hend
  | parts hgap₁ hgap₂ hperiods hend =>
    rw [bracketed, List.nil_append, Text.dropBlanks_append hgap₁.2, Text.dropBlanks_append hgap₂]
    cases periods with
    | none => exact hisEnd hend
    | some field =>
      have hfield := hperiods field rfl
      have hhead := hopen field rfl
      rw [Option.getD_some, hfield.dropBlanks_append]
      obtain ⟨c, field, rfl⟩ := List.exists_cons_of_ne_nil hfield.1
      exact hhead

/-! ## Lines -/

variable {p : LineParts} {line : List Char}

/-- What is read of a line is laid out in it. -/
theorem layout_of_read? (h : read? line = some p) : Layout p line := by
  simp only [read?, Option.bind_eq_bind, Option.bind_eq_some_iff, Prod.exists,
    takeNextField?_eq_some_iff] at h
  obtain ⟨year, rest₁, hyear, month, rest₂, ⟨gap₁, hgap₁, hmonth, rfl, -⟩, dayOfMonth, rest₃,
    ⟨gap₂, hgap₂, hday, rfl, -⟩, dayOfWeek, tail, ⟨gap₃, hgap₃, hweek, rfl, -⟩, h⟩ := h
  obtain ⟨lead, hlead, hline⟩ := Text.exists_eq_append_dropBlanks line
  obtain ⟨hcut, hyear, -⟩ := takeField?_eq_some_iff.1 hyear
  rw [hcut] at hline
  rcases ht : takeOptionalParts tail with ⟨description, periods, rest⟩
  simp only [ht] at h
  split at h
  · next hend =>
    cases h
    exact .intro hlead hyear hgap₁ hmonth hgap₂ hday hgap₃ hweek
      (tail_of_takeOptionalParts ht (isLineEnd_iff.1 hend)) hline
  · cases h

/-- The fields of a line are read, and then what follows them. -/
theorem read?_fields {lead year gap₁ month gap₂ dayOfMonth gap₃ dayOfWeek tail : List Char}
    (hlead : Text.AllBlank lead) (hyear : IsField year) (hgap₁ : Text.IsGap gap₁)
    (hmonth : IsField month) (hgap₂ : Text.IsGap gap₂) (hday : IsField dayOfMonth)
    (hgap₃ : Text.IsGap gap₃) (hweek : IsField dayOfWeek) (htail : EndsField tail) :
    read? (lead ++ (year ++ (gap₁ ++ (month ++ (gap₂ ++ (dayOfMonth ++ (gap₃ ++
        (dayOfWeek ++ tail)))))))) =
      let (description, periods, rest) := takeOptionalParts tail
      if isLineEnd rest then some ⟨year, month, dayOfMonth, dayOfWeek, description, periods⟩
      else none := by
  have hnext {gap field rest : List Char} (hgap : Text.IsGap gap) (hfield : IsField field)
      (hrest : EndsField rest) : takeNextField? (gap ++ (field ++ rest)) = some (field, rest) :=
    takeNextField?_eq_some_iff.2 ⟨gap, hgap, hfield, rfl, hrest⟩
  have hfirst : takeField? (year ++ (gap₁ ++ (month ++ (gap₂ ++ (dayOfMonth ++ (gap₃ ++
      (dayOfWeek ++ tail))))))) = some (year, _) :=
    takeField?_eq_some_iff.2 ⟨rfl, hyear, .of_isGap hgap₁ _⟩
  rw [read?, Text.dropBlanks_append hlead, hyear.dropBlanks_append, hfirst]
  simp only [Option.bind_eq_bind, Option.bind_some, hnext hgap₁ hmonth (.of_isGap hgap₂ _),
    hnext hgap₂ hday (.of_isGap hgap₃ _), hnext hgap₃ hweek htail]

theorem read?_of_tail {lead year gap₁ month gap₂ dayOfMonth gap₃ dayOfWeek tail : List Char}
    (hlead : Text.AllBlank lead) (hyear : IsField year) (hgap₁ : Text.IsGap gap₁)
    (hmonth : IsField month) (hgap₂ : Text.IsGap gap₂) (hday : IsField dayOfMonth)
    (hgap₃ : Text.IsGap gap₃) (hweek : IsField dayOfWeek) (htail : Tail description periods tail)
    (hopen : description = none → ¬ StartsDescription (Text.dropBlanks tail)) :
    read? (lead ++ (year ++ (gap₁ ++ (month ++ (gap₂ ++ (dayOfMonth ++ (gap₃ ++
        (dayOfWeek ++ tail)))))))) =
      some ⟨year, month, dayOfMonth, dayOfWeek, description, periods⟩ := by
  obtain ⟨rest, ht, hend⟩ := takeOptionalParts_of_tail htail hopen
  rw [read?_fields hlead hyear hgap₁ hmonth hgap₂ hday hgap₃ hweek htail.endsField, ht]
  exact if_pos (isLineEnd_iff.2 hend)

/-- The parts of a line are read, unless its periods would be taken for a description. -/
theorem read?_of_layout (h : Layout p line)
    (hopen : p.description = none → ∀ field ∈ p.periods, field.head? ≠ some '[') :
    read? line = some p := by
  obtain ⟨hlead, hyear, hgap₁, hmonth, hgap₂, hday, hgap₃, hweek, htail, rfl⟩ := h
  refine read?_of_tail hlead hyear hgap₁ hmonth hgap₂ hday hgap₃ hweek htail ?_
  intro hnone hstarts
  rw [hnone] at htail
  exact htail.head?_dropBlanks (hopen hnone) (head?_of_startsDescription hstarts)

/-- The parts that are read of a line are those in which it is laid out, with the description taken
where one starts, even if the line cannot be read with it. -/
theorem read?_eq_some_iff_layout :
    read? line = some p ↔ Layout p line ∧ (p.description = none → ¬ Describes line) := by
  constructor
  · intro h
    refine ⟨layout_of_read? h, ?_⟩
    rintro hnone ⟨hlead, hyear, hgap₁, hmonth, hgap₂, hday, hgap₃, hweek, hgap₄, hstarts, rfl⟩
    obtain ⟨text, after, htake⟩ := takeDescription_of_startsDescription hstarts
    rw [read?_fields hlead hyear hgap₁ hmonth hgap₂ hday hgap₃ hweek (.of_isGap hgap₄ _),
      takeOptionalParts_gap_append hgap₄, hstarts.dropBlanks_eq, htake] at h
    simp only at h
    split at h
    · cases h
      cases hnone
    · cases h
  · rintro ⟨h, hopen⟩
    obtain @⟨lead, gap₁, gap₂, gap₃, tail, hlead, hyear, hgap₁, hmonth, hgap₂, hday, hgap₃, hweek,
      htail, rfl⟩ := h
    refine read?_of_tail hlead hyear hgap₁ hmonth hgap₂ hday hgap₃ hweek htail ?_
    intro hnone hstarts
    obtain ⟨gap₄, hgap₄, heq⟩ := Text.exists_eq_append_dropBlanks tail
    have hne : gap₄ ≠ [] := by
      rintro rfl
      have hhead := head?_of_startsDescription hstarts
      rw [List.nil_append] at heq
      rw [← heq] at hhead
      exact absurd (htail.endsField _ hhead) (by decide)
    exact hopen hnone (.intro hlead hyear hgap₁ hmonth hgap₂ hday hgap₃ hweek ⟨hne, hgap₄⟩
      hstarts (by rw [← heq]))

end LineParts

end Workdays
