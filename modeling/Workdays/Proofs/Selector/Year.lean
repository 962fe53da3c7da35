import Workdays.Proofs.Selector.RoundTrip
import Workdays.Rule.Pattern

/-!
# Forms of selectors of years

The form of a selector of years denotes this selector or nothing, as that of any other does. The
mark of leap years tells a form from those of intervals and strides. So with all four fields the
text of a selector, or of a list of selectors, is read back when its numbers can be read, and is
refused otherwise.

## Main definitions

* `YearSelector.IsLegible`: all numbers of the selector can be read.
-/

namespace Workdays

variable {cs : List Char}

namespace LeapQualifier

theorem mark_leap : leap.mark = ['/', 'L', 'e', 'a', 'p'] := rfl

theorem mark_notLeap : notLeap.mark = ['/', 'N', 'o', 't', 'L', 'e', 'a', 'p'] := rfl

theorem append_mark_inj {as bs : List Char} {p q : LeapQualifier}
    (h : as ++ p.mark = bs ++ q.mark) : as = bs ∧ p = q := by
  have hrev := congrArg List.reverse h
  cases p <;> cases q
  case leap.leap | notLeap.notLeap => exact ⟨List.append_cancel_right h, rfl⟩
  all_goals simp [mark_leap, mark_notLeap] at hrev

end LeapQualifier

namespace YearSelector

def IsLegible : YearSelector → Prop
  | .interval r => r.IsLegible
  | .stride s => s.IsLegible
  | .qualified _ r _ => r.IsLegible

instance : (s : YearSelector) → Decidable s.IsLegible
  | .interval r => inferInstanceAs (Decidable r.IsLegible)
  | .stride s => inferInstanceAs (Decidable s.IsLegible)
  | .qualified _ r _ => inferInstanceAs (Decidable r.IsLegible)

theorem readQualified?_eq_some_iff {q : LeapQualifier} {s : YearSelector} :
    readQualified? q cs = some s ↔ ∃ range r several, cs = range ++ q.mark ∧
      Interval.read? .years range = some r ∧ s = .qualified q r several := by
  unfold readQualified?
  simp only [Option.bind_eq_bind, Option.bind_eq_some_iff, Text.isSuffixOf?_eq_some_iff]
  refine exists_congr fun range => ?_
  constructor
  · intro h
    obtain ⟨hcs, r, hr, h⟩ := h
    unfold qualify at h
    split at h
    · cases h
    · cases h
      exact ⟨r, ‹_›, hcs, hr, rfl⟩
  · intro h
    obtain ⟨r, several, hcs, hr, rfl⟩ := h
    exact ⟨hcs, r, hr, by simp [qualify, several, Except.toOption]⟩

theorem mem_of_readQualified? {q : LeapQualifier} {s : YearSelector}
    (h : readQualified? q cs = some s) : '/' ∈ cs ∧ 'p' ∈ cs := by
  obtain ⟨range, r, several, rfl, -⟩ := readQualified?_eq_some_iff.1 h
  cases q <;> simp [LeapQualifier.mark_leap, LeapQualifier.mark_notLeap]

/-- The readers of the kinds, in the order in which they are tried. -/
def readers : List (List Char → Option YearSelector) :=
  [readQualified? .leap, readQualified? .notLeap, fun cs => (Stride.read? .years cs).map .stride,
    fun cs => (Interval.read? .years cs).map .interval]

theorem read?_eq_findSome? : read? cs = readers.findSome? (· cs) := by
  simp only [read?, readers, List.findSome?_cons, List.findSome?_nil]
  cases readQualified? .leap cs <;> cases readQualified? .notLeap cs <;>
    cases Stride.read? .years cs <;> cases Interval.read? .years cs <;> rfl

theorem readQualified?_eq_none_or {p q : LeapQualifier} (h : p ≠ q) :
    readQualified? p cs = none ∨ readQualified? q cs = none := by
  rw [or_iff_not_imp_left]
  intro hp
  obtain ⟨t, ht⟩ := Option.ne_none_iff_exists'.1 hp
  refine Option.eq_none_iff_forall_ne_some.2 fun s hs => ?_
  obtain ⟨range, r, several, hcs, -⟩ := readQualified?_eq_some_iff.1 ht
  obtain ⟨range', r', several', hcs', -⟩ := readQualified?_eq_some_iff.1 hs
  exact h (LeapQualifier.append_mark_inj (hcs.symm.trans hcs')).2

/-- Neither a stride nor an interval is marked. -/
theorem readQualified?_eq_none_or_unmarked {q : LeapQualifier} :
    readQualified? q cs = none ∨
      Stride.read? .years cs = none ∧ Interval.read? .years cs = none := by
  rw [or_iff_not_imp_left]
  intro hq
  obtain ⟨s, hs⟩ := Option.ne_none_iff_exists'.1 hq
  obtain ⟨hslash, hp⟩ := mem_of_readQualified? hs
  simp only [Option.eq_none_iff_forall_ne_some]
  constructor
  · intro t ht
    simpa using (Stride.mem_of_read? ht).2 'p' hp
  · intro r hr
    exact Interval.slash_notMem_of_read? hr hslash

/-- No text denotes a selector of years in two ways. -/
theorem exclusive_readers : Exclusive readers := by
  simp only [Exclusive, readers, List.pairwise_cons, List.forall_mem_cons, Option.map_eq_none_iff,
    List.not_mem_nil, false_imp_iff, implies_true, List.Pairwise.nil, and_true]
  have hunmarked (q : LeapQualifier) (cs : List Char) :=
    or_and_left.1 (@readQualified?_eq_none_or_unmarked cs q)
  refine ⟨⟨?_, ?_, ?_⟩, ⟨?_, ?_⟩, ?_⟩
  · exact fun cs => readQualified?_eq_none_or nofun
  · exact fun cs => (hunmarked .leap cs).1
  · exact fun cs => (hunmarked .leap cs).2
  · exact fun cs => (hunmarked .notLeap cs).1
  · exact fun cs => (hunmarked .notLeap cs).2
  · exact fun cs => Stride.read?_eq_none_or_interval

theorem read?_eq_some_iff {s : YearSelector} :
    read? cs = some s ↔
      (∃ q, readQualified? q cs = some s) ∨
        (∃ t, Stride.read? .years cs = some t ∧ s = .stride t) ∨
          ∃ r, Interval.read? .years cs = some r ∧ s = .interval r := by
  have hqualified : (∃ q, readQualified? q cs = some s) ↔
      readQualified? .leap cs = some s ∨ readQualified? .notLeap cs = some s := by
    constructor
    · rintro ⟨_ | _, hq⟩
      · exact .inl hq
      · exact .inr hq
    · rintro (hq | hq)
      · exact ⟨_, hq⟩
      · exact ⟨_, hq⟩
  rw [read?_eq_findSome?, exclusive_readers.findSome?_eq_some_iff, hqualified]
  simp [readers, eq_comm, or_assoc]

theorem isLegible_of_read? {s : YearSelector} (h : read? cs = some s) : s.IsLegible := by
  rcases read?_eq_some_iff.1 h with ⟨q, hq⟩ | ⟨t, ht, rfl⟩ | ⟨r, hr, rfl⟩
  · obtain ⟨range, r, several, -, hr, rfl⟩ := readQualified?_eq_some_iff.1 hq
    exact Interval.isLegible_of_read? hr
  · exact Stride.isLegible_of_read? ht
  · exact Interval.isLegible_of_read? hr

theorem isPlain_write (s : YearSelector) : Text.IsPlain s.write := by
  have hmarks : Text.IsPlain ['-', '.', '*', '/'] := by decide
  have hinterval (r : Interval .years) : Text.IsPlain r.write :=
    Text.isPlain_of_isDigit_or_mem hmarks fun c hc => by have := Interval.mem_write hc; grind
  cases s with
  | interval r => exact hinterval r
  | stride t =>
    exact Text.isPlain_of_isDigit_or_mem hmarks fun c hc => by have := Stride.mem_write hc; grind
  | qualified q r several =>
    apply (hinterval r).append
    cases q <;> decide

/-- A selector of years is read back from its form if all its numbers can be read. -/
theorem read?_write_eq_some_iff {s t : YearSelector} :
    read? s.write = some t ↔ s.IsLegible ∧ t = s := by
  rw [read?_eq_some_iff]
  cases s with
  | interval r =>
    have hslash : '/' ∉ r.write := fun h => by simpa using Interval.mem_write h
    have hqualified : ∀ q, readQualified? q r.write ≠ some t := fun q hq =>
      hslash (mem_of_readQualified? hq).1
    have hstride : ∀ u, Stride.read? .years r.write ≠ some u := fun u hu =>
      hslash (Stride.mem_of_read? hu).1
    simp [write, hqualified, hstride, Interval.read?_write_eq_some_iff, IsLegible]
  | stride s =>
    have hp : 'p' ∉ s.write := fun h => by simpa using Stride.mem_write h
    have hqualified : ∀ q, readQualified? q s.write ≠ some t := fun q hq =>
      hp (mem_of_readQualified? hq).2
    have hinterval : ∀ r, Interval.read? .years s.write ≠ some r := fun r hr =>
      Interval.slash_notMem_of_read? hr (by simp [Stride.write_eq])
    simp [write, hqualified, hinterval, Stride.read?_write_eq_some_iff, IsLegible]
  | qualified q r several =>
    have hmark : '/' ∈ q.mark ∧ 'p' ∈ q.mark := by cases q <;> decide
    have hstride : ∀ u, Stride.read? .years (r.write ++ q.mark) ≠ some u := fun u hu => by
      simpa using (Stride.mem_of_read? hu).2 'p' (by simp [hmark.2])
    have hinterval : ∀ u, Interval.read? .years (r.write ++ q.mark) ≠ some u := fun u hu =>
      Interval.slash_notMem_of_read? hu (by simp [hmark.1])
    simp only [write, hstride, hinterval, false_and, exists_false, or_false,
      readQualified?_eq_some_iff]
    constructor
    · intro h
      obtain ⟨p, range, u, several', hcs, hu, rfl⟩ := h
      obtain ⟨rfl, rfl⟩ := LeapQualifier.append_mark_inj hcs
      obtain ⟨hr, rfl⟩ := Interval.read?_write_eq_some_iff.1 hu
      exact ⟨hr, rfl⟩
    · intro h
      obtain ⟨hr, rfl⟩ := h
      exact ⟨q, r.write, r, several, rfl, Interval.read?_write_eq_some_iff.2 ⟨hr, rfl⟩, rfl⟩

instance : Faithful YearSelector where
  IsLegible := IsLegible
  write_ne_nil
    | .interval r => r.write_ne_nil
    | .stride s => by simp [Written.write, write, Stride.write_eq]
    | .qualified _ r _ => List.append_ne_nil_of_left_ne_nil r.write_ne_nil _
  isPlain_write := isPlain_write
  read?_write_eq_some_iff := read?_write_eq_some_iff
  isLegible_of_read? := isLegible_of_read?

instance : DecidablePred (Faithful.IsLegible : YearSelector → Prop) :=
  inferInstanceAs (DecidablePred IsLegible)

end YearSelector

/-! ## What is printed -/

/-- What is printed of a selector is read as this selector if no bound is negative and the period
fits, and is refused otherwise. What is printed of a list is read as this list if each of its
selectors is read, and is refused as a whole otherwise. -/
theorem parse?_text_iff_isLegible :
    (∀ s : YearSelector,
      parse? YearSelector (Written.text s) = if s.IsLegible then some s else none) ∧
    (∀ selectors : List YearSelector, selectors ≠ [] →
      parseList? YearSelector "," (String.ofList (Pattern.writeField selectors)) =
        if ∀ s ∈ selectors, s.IsLegible then some selectors else none) ∧
    ∀ (D : Domain) [D.Nonneg],
      (∀ s : Selector D,
        parse? (Selector D) (Written.text s) = if s.IsLegible then some s else none) ∧
      ∀ selectors : List (Selector D), selectors ≠ [] →
        parseList? (Selector D) "," (String.ofList (Pattern.writeField selectors)) =
          if ∀ s ∈ selectors, s.IsLegible then some selectors else none := by
  have hfield {σ : Type} [Written σ] {selectors : List σ} (h : selectors ≠ []) :
      Pattern.writeField selectors = Written.writeList [','] selectors := by
    cases selectors with
    | nil => contradiction
    | cons => rfl
  refine ⟨?_, ?_, fun D _ => ⟨?_, ?_⟩⟩
  · exact fun s => Faithful.parse?_text s
  · intro selectors hne
    rw [hfield hne]
    exact Faithful.parseList?_writeList hne
  · exact fun s => Faithful.parse?_text s
  · intro selectors hne
    rw [hfield hne]
    exact Faithful.parseList?_writeList hne

/-- The period of the stride is printed, but it is too large to be read. -/
theorem parse?_text_iff_isLegible_period :
    ∃ s : YearSelector, Written.text s = "2020/3000000000" ∧
      parse? YearSelector (Written.text s) = none ∧
      parseList? YearSelector ","
          (String.ofList (Pattern.writeField [YearSelector.all, s])) = none ∧
      parseList? (Selector .months) ","
          (String.ofList (Pattern.writeField [Selector.all .months])) = some [.all .months] := by
  let s : YearSelector :=
    .stride ⟨2020, none, 3000000000, by decide, ⟨nofun, nofun⟩, nofun, by decide⟩
  have hs : ¬ s.IsLegible := by decide
  obtain ⟨hyear, hyears, hfields⟩ := parse?_text_iff_isLegible
  refine ⟨s, by decide +kernel, ?_, ?_, ?_⟩
  · rw [hyear s, if_neg hs]
  · rw [hyears [.all, s] (List.cons_ne_nil _ _), if_neg]
    exact fun h => hs (h s (by simp))
  · rw [(hfields .months).2 [.all .months] (List.cons_ne_nil _ _), if_pos (by decide)]

end Workdays
