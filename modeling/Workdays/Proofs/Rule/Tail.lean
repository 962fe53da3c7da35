import Workdays.Proofs.Time.Canonical
import Workdays.Rule.Basic

/-!
# Ends of forms

The form of a rule and the line of a day end with a description and periods, either of which may be
missing. They are told by this end: no period has a bracket, so the last bracket closes the
description, whatever stands in it. A blank in the end is a space, or stands in the description.
-/

namespace Workdays.Rule

variable {c : Char} {text : String} {description description' : Option String}
  {periods periods' : List Period}

theorem notMem_writeTail (hblank : Text.isBlank c) (hspace : c ≠ ' ')
    (hdescription : ∀ text ∈ description, c ∉ text.toList) :
    c ∉ writeTail description periods := by
  have hbracket : c ≠ '[' ∧ c ≠ ']' := by
    constructor <;>
    · rintro rfl
      cases hblank
  have hperiods : c ∉ Written.writeList [','] periods := by
    intro hc
    rw [(Faithful.of_mem_writeList hc).1] at hblank
    cases hblank
  cases description <;> cases periods <;> simp_all [writeTail, Description.write]

theorem writeTail_some : writeTail (some text) periods =
    ([' ', '[', '['] ++ text.toList ++ [']']) ++ ']' :: writeTail none periods := by
  simp [writeTail, Description.write]

theorem bracket_notMem_writeTail_none : ']' ∉ writeTail none periods := by
  have hlist : ']' ∉ Written.writeList [','] periods := by
    intro h
    obtain hcomma | ⟨p, -, hp⟩ := Written.mem_of_mem_writeList h
    · simp at hcomma
    · simpa using Period.mem_write hp
  cases periods with
  | nil => exact List.not_mem_nil
  | cons p periods => simpa [writeTail] using hlist

theorem writeTail_none_injective : Function.Injective (writeTail none) := by
  intro periods periods' h
  have hread {p : Period} {periods : List Period} : Written.readList? Period [',']
      (Written.writeList [','] (p :: periods)) = some (p :: periods) :=
    Period.readList?_writeList (List.cons_ne_nil p periods) List.mem_cons_self (by decide)
  cases periods <;> cases periods'
  case nil.nil => rfl
  case nil.cons => simp [writeTail] at h
  case cons.nil => simp [writeTail] at h
  case cons.cons =>
    have hlist := congrArg (Written.readList? Period [',']) (List.cons.inj h).2
    rw [hread, hread] at hlist
    exact Option.some.inj hlist

/-- The last bracket ends the description, which can hold brackets and periods itself. -/
theorem writeTail_inj : writeTail description periods = writeTail description' periods' ↔
    description = description' ∧ periods = periods' := by
  refine ⟨fun h => ?_, by rintro ⟨rfl, rfl⟩; rfl⟩
  have hcut (text : String) (periods : List Period) :
      Text.splitLast? ']' (writeTail (some text) periods) =
        some ([' ', '[', '['] ++ text.toList ++ [']'], writeTail none periods) := by
    rw [writeTail_some, Text.splitLast?_append bracket_notMem_writeTail_none]
  have hne (text : String) (periods periods' : List Period) :
      writeTail (some text) periods ≠ writeTail none periods' :=
    ne_of_mem_of_not_mem' (by simp [writeTail_some] : ']' ∈ writeTail (some text) periods)
      bracket_notMem_writeTail_none
  cases description <;> cases description'
  case none.none => exact ⟨rfl, writeTail_none_injective h⟩
  case none.some => exact absurd h.symm (hne _ _ _)
  case some.none => exact absurd h (hne _ _ _)
  case some.some text text' =>
    have hsides := congrArg (Text.splitLast? ']') h
    rw [hcut, hcut, Option.some.injEq, Prod.mk.injEq] at hsides
    obtain ⟨hbracketed, hperiods⟩ := hsides
    have htext : text.toList = text'.toList := by simpa using hbracketed
    exact ⟨congrArg some (String.toList_inj.1 htext), writeTail_none_injective hperiods⟩

end Workdays.Rule
