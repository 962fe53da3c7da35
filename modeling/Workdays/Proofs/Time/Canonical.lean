import Workdays.Proofs.Time.Period

/-!
# The texts of periods

A time has one form, and so has a period: what is read as a period is the form of that period, and
nothing else is. So a text that is read as a list of periods is made of their forms with the
separator between each two. A text made in this way is read as the list if some character of the
separator is in the form of no period, as then no separator begins but where one was put.
-/

namespace Workdays

variable {cs : List Char}

namespace Time

theorem read?_eq_some_iff {t : Time} : read? cs = some t ↔ cs = t.write := by
  constructor
  · intro h
    unfold read? at h
    split at h
    · simp only [Option.bind_eq_bind, Option.bind_eq_some_iff, ofHourMinute?_eq_some_iff] at h
      obtain ⟨_, hhour, _, hminute, rfl, rfl⟩ := h
      obtain ⟨h₁, h₂, m₁, m₂, hwrite, hhour', hminute'⟩ := t.exists_write_eq
      obtain ⟨rfl, rfl⟩ := Text.eq_of_readNat?_eq hhour hhour'
      obtain ⟨rfl, rfl⟩ := Text.eq_of_readNat?_eq hminute hminute'
      rw [hwrite]
    · cases h
  · rintro rfl
    exact t.read?_write

theorem parse?_eq_some_iff {s : String} {t : Time} :
    parse? Time s = some t ↔ s = Written.text t := by
  rw [Written.eq_text_iff]
  exact read?_eq_some_iff

end Time

namespace Period

variable {p : Period} {periods : List Period} {sep : List Char}

theorem ofTimes_eq_ok_iff {start stop : Time} :
    ofTimes start stop = .ok p ↔ p.start = start ∧ p.stop = stop := by
  constructor
  · intro h
    unfold ofTimes at h
    split at h
    · split at h
      · cases h
        exact ⟨rfl, rfl⟩
      · cases h
    · cases h
  · rintro ⟨rfl, rfl⟩
    exact p.ofTimes_start_stop

theorem read?_eq_some_iff : read? cs = some p ↔ cs = p.write := by
  constructor
  · intro h
    unfold read? at h
    split at h
    · simp only [Option.bind_eq_bind, Option.bind_eq_some_iff] at h
      obtain ⟨start, hstart, stop, hstop, h⟩ := h
      obtain ⟨rfl, rfl⟩ := ofTimes_eq_ok_iff.1 (toOption_eq_some_iff.1 h)
      rw [write, ← Time.read?_eq_some_iff.1 hstart, ← Time.read?_eq_some_iff.1 hstop]
      rfl
    · cases h
  · rintro rfl
    exact p.read?_write

theorem parse?_eq_some_iff {s : String} : parse? Period s = some p ↔ s = Written.text p := by
  rw [Written.eq_text_iff]
  exact read?_eq_some_iff

/-- The segments of a list of periods are the forms of the periods. -/
theorem readList?_eq_some_iff : Written.readList? Period sep cs = some periods ↔
    sep ≠ [] ∧ Text.splitOn sep cs = periods.map write := by
  have hread (segment : List Char) (p : Period) :
      Written.read? segment = some p ↔ segment = p.write := read?_eq_some_iff
  simp only [Written.readList?_eq_some_iff_forall₂, hread]
  rw [← List.forall₂_map_right_iff, List.forall₂_eq_eq_eq]

theorem writeList_of_readList? (h : Written.readList? Period sep cs = some periods) :
    periods ≠ [] ∧ Written.writeList sep periods = cs := by
  obtain ⟨-, hsegments⟩ := readList?_eq_some_iff.1 h
  constructor
  · rintro rfl
    exact Text.splitOn_ne_nil sep cs hsegments
  · calc Written.writeList sep periods
      _ = sep.intercalate (Text.splitOn sep cs) := by rw [hsegments]; rfl
      _ = cs := Text.intercalate_splitOn sep cs

theorem readList?_writeList {c : Char} (hne : periods ≠ []) (hc : c ∈ sep)
    (hmark : ¬ (c.isDigit ∨ c ∈ [':', '-'])) :
    Written.readList? Period sep (Written.writeList sep periods) = some periods := by
  refine readList?_eq_some_iff.2 ⟨List.ne_nil_of_mem hc, ?_⟩
  refine Text.splitOn_intercalate hc (by simpa using hne) fun segment hsegment hmem => ?_
  obtain ⟨p, -, rfl⟩ := List.mem_map.1 hsegment
  exact hmark (mem_write hmem)

/-- Reading lists of periods and writing them are inverse to each other. The text of a list is read
as this list if its separator has a character that is neither a digit nor a mark of periods, and
whatever is read as a list is the text of that list. In particular the texts of periods are those
of the periods that can be made of two times. -/
theorem parseList?_inverts_writeList :
    (∀ (sep text : String) (periods : List Period), parseList? Period sep text = some periods →
      periods ≠ [] ∧ String.ofList (Written.writeList sep.toList periods) = text) ∧
    (∀ (sep : String) (periods : List Period), periods ≠ [] →
      (∃ c ∈ sep.toList, ¬ (c.isDigit ∨ c ∈ [':', '-'])) →
        parseList? Period sep (String.ofList (Written.writeList sep.toList periods)) =
          some periods) ∧
    (∀ (text : String) (p : Period), parse? Period text = some p ↔ text = Written.text p) ∧
    ∀ text : String, (∃ p, parse? Period text = some p) ↔
      ∃ start stop p, ofTimes start stop = .ok p ∧ text = Written.text p := by
  refine ⟨?_, ?_, fun _ _ => parse?_eq_some_iff, ?_⟩
  · intro sep text periods h
    obtain ⟨hne, hwrite⟩ := writeList_of_readList? h
    exact ⟨hne, by rw [hwrite, String.ofList_toList]⟩
  · intro sep periods hne hsep
    obtain ⟨c, hc, hmark⟩ := hsep
    rw [parseList?, String.toList_ofList]
    exact readList?_writeList hne hc hmark
  · intro text
    simp only [parse?_eq_some_iff]
    constructor
    · intro h
      obtain ⟨p, rfl⟩ := h
      exact ⟨p.start, p.stop, p, p.ofTimes_start_stop, rfl⟩
    · intro h
      obtain ⟨start, stop, p, -, rfl⟩ := h
      exact ⟨p, rfl⟩

/-- The separator begins and ends like a period, and still it is found. -/
theorem parseList?_inverts_writeList_digits :
    ∃ morning : Period, [morning, Period.allDay] ≠ [] ∧
      (∃ c ∈ "0;08:00-".toList, ¬ (c.isDigit ∨ c ∈ [':', '-'])) ∧
        parseList? Period "0;08:00-" "08:00-12:000;08:00-00:00-24:00" =
          some [morning, Period.allDay] ∧
        parse? Period "08:00-12:00" = some morning := by
  let morning : Period := ⟨⟨480, by decide⟩, ⟨720, by decide⟩, by decide, by decide⟩
  have hsep : ∃ c ∈ "0;08:00-".toList, ¬ (c.isDigit ∨ c ∈ [':', '-']) :=
    ⟨';', by decide, by decide⟩
  have htext : String.ofList (Written.writeList "0;08:00-".toList [morning, Period.allDay]) =
      "08:00-12:000;08:00-00:00-24:00" := by decide +kernel
  obtain ⟨-, hlist, hone, -⟩ := parseList?_inverts_writeList
  have hread := hlist "0;08:00-" [morning, Period.allDay] (List.cons_ne_nil _ _) hsep
  rw [htext] at hread
  exact ⟨morning, List.cons_ne_nil _ _, hsep, hread, (hone _ morning).2 (by decide +kernel)⟩

end Period

end Workdays
