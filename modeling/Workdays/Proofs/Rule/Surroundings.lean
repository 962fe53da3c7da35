import Workdays.Proofs.Rule.RoundTrip

/-!
# What stands around a rule

Blanks in front of a line and behind it, and a comment at its end, say nothing about its rule. What
is added behind a line stands after all brackets of the line. It can end a description where the end
of the line did so before, but not earlier: whether a `]]` inside a description closes it is decided
before the brackets that follow. So every cut of a line is one of the longer line.
-/

namespace Workdays

variable {cs lead margin line rest text : List Char}

/-- The end of a line may be followed by another one: either the first is blank, or the second is
part of its comment. -/
theorem LineParts.IsEnd.append (h : IsEnd rest) (hmargin : IsEnd margin) :
    IsEnd (rest ++ margin) := by
  cases h with
  | blank hgap =>
    cases hmargin with
    | blank hgap' => exact .blank (hgap.append hgap')
    | comment hgap' =>
      rw [← List.append_assoc]
      exact .comment (hgap.append hgap')
  | comment hgap =>
    rw [List.append_assoc, List.cons_append]
    exact .comment hgap

namespace Description

theorem Closes.append (h : Closes rest) (hmargin : LineParts.IsEnd margin) :
    Closes (rest ++ margin) := by
  cases h with
  | lineEnd hend => exact .lineEnd (hend.append hmargin)
  | period hgap d₁ d₂ d₃ d₄ =>
    rw [List.append_assoc]
    exact .period hgap d₁ d₂ d₃ d₄

/-- An earlier end of a description does not hang on what follows the description. -/
theorem endsWithin_congr {rest' : List Char} : EndsWithin text rest ↔ EndsWithin text rest' := by
  rw [endsWithin_iff_isCut, endsWithin_iff_isCut]

end Description

namespace LineParts

variable {description periods : Option (List Char)} {p : LineParts}

theorem Tail.append (h : Tail description periods cs) (hmargin : IsEnd margin) :
    Tail description periods (cs ++ margin) := by
  cases h with
  | bare hend => exact .bare (hend.append hmargin)
  | parts hgap₁ hgap₂ hperiods hend hdescription =>
    simp only [List.append_assoc]
    refine .parts hgap₁ hgap₂ hperiods (hend.append hmargin) fun text htext => ?_
    obtain ⟨hcloses, hends⟩ := hdescription text htext
    constructor
    · simpa only [List.append_assoc] using hcloses.append hmargin
    · rwa [Description.endsWithin_congr]

/-- A line keeps its parts when blanks are put in front of it and an end behind it. -/
theorem Layout.surround (h : Layout p line) (hlead : Text.AllBlank lead) (hmargin : IsEnd margin) :
    Layout p (lead ++ (line ++ margin)) := by
  obtain ⟨hlead', hyear, hgap₁, hmonth, hgap₂, hday, hgap₃, hweek, htail, rfl⟩ := h
  refine .intro (hlead.append hlead') hyear hgap₁ hmonth hgap₂ hday hgap₃ hweek
    (htail.append hmargin) ?_
  simp only [List.append_assoc]

theorem Cut.surround (h : Cut p line) (hlead : Text.AllBlank lead) (hmargin : IsEnd margin) :
    Cut p (lead ++ (line ++ margin)) :=
  { h with layout := h.layout.surround hlead hmargin }

end LineParts

namespace Rule

variable {r : Rule}

theorem read?_surround (h : Written.read? line = some r) (hlead : Text.AllBlank lead)
    (hmargin : LineParts.IsEnd margin) :
    Written.read? (lead ++ (line ++ margin)) = some r := by
  obtain ⟨p, hread, hdenotes⟩ := read?_eq_some_iff.1 h
  have hcut := (hdenotes.cut (LineParts.layout_of_read? hread)).surround hlead hmargin
  exact read?_eq_some_iff.2 ⟨p, hcut.read?_eq_some, hdenotes⟩

/-- The rule of a line is also that of the line with blanks around it, and with any comment behind
these. -/
theorem parse?_surrounded {line lead trail : String} (h : parse? Rule line = some r)
    (hlead : Text.AllBlank lead.toList) (htrail : Text.AllBlank trail.toList) :
    parse? Rule (lead ++ line ++ trail) = some r ∧
      ∀ comment : String, parse? Rule (lead ++ line ++ trail ++ "#" ++ comment) = some r := by
  constructor
  · have hread := read?_surround h hlead (.blank htrail)
    simpa [parse?] using hread
  · intro comment
    have hmargin : LineParts.IsEnd (trail.toList ++ '#' :: comment.toList) := .comment htrail
    have hread := read?_surround h hlead hmargin
    simpa [parse?] using hread

/-- Neither the brackets and the period in the comment nor its line break end the description, which
is closed by the brackets before the comment as it was by those at the end of the line. -/
theorem parse?_surrounded_brackets :
    ∃ r, parse? Rule "* * * * [[a]]b]]" = some r ∧ Text.AllBlank "\t".toList ∧
      Text.AllBlank "\u3000".toList ∧
        parse? Rule "\t* * * * [[a]]b]]\u3000" = some r ∧
          parse? Rule "\t* * * * [[a]]b]]\u3000# ]] 08:00-12:00 [[c]]\n" = some r := by
  let r : Rule := ⟨(default : Pattern).filled, some ⟨"a]]b", by decide, by decide, by decide⟩, []⟩
  have htext : r.text = "* * * * [[a]]b]]" := by decide +kernel
  have hread : parse? Rule "* * * * [[a]]b]]" = some r := by
    rw [← htext]
    exact parse?_text_of_isRead (Pattern.IsLegible.isRead_filled (by decide))
  have hlead : Text.AllBlank "\t".toList := by decide
  have htrail : Text.AllBlank "\u3000".toList := by decide
  obtain ⟨hblanks, hcomment⟩ := parse?_surrounded hread hlead htrail
  exact ⟨r, hread, hlead, htrail, hblanks, hcomment " ]] 08:00-12:00 [[c]]\n"⟩

end Rule

end Workdays
