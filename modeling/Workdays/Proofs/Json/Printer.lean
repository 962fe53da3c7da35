import Mathlib.Tactic.SplitIfs
import Workdays.Json.Printer
import Workdays.Proofs.Json.Grammar

/-!
# The printer keeps to the grammar

Both forms of a document are texts of it. They differ in the white space before an item, after a
colon and before a closing mark, so their phrases are the same.
-/

namespace Workdays.Json

variable {α : Type} {gap cs rest : List Char} {j : Json}

/-! ## Texts -/

/-- The code of a control character has two zeros in front. -/
theorem hexCode?_of_lt :
    ∀ n < 0x20, hexCode? ['0', '0', hexDigit (n / 16), hexDigit (n % 16)] = some n := by
  decide

theorem character_escape (c : Char) (rest : List Char) : Character c (escape c ++ rest) rest := by
  unfold escape
  split_ifs with hquote hbackslash h₁ h₂ h₃ h₄ h₅ hcontrol
  -- the characters with a letter of their own
  iterate 7 exact .letter (by subst c; rfl)
  · have hcode : Character (Char.ofNat c.toNat) _ rest :=
      .code (hexCode?_of_lt c.toNat hcontrol) (.inl (by omega))
    rwa [Char.ofNat_toNat] at hcode
  · exact .plain (Nat.le_of_not_lt hcontrol) hquote hbackslash

theorem chars_flatMap_escape (s rest : List Char) :
    Chars s (s.flatMap escape ++ '"' :: rest) rest := by
  induction s with
  | nil => exact .nil
  | cons c s ih =>
    rw [List.flatMap_cons, List.append_assoc]
    exact .cons (character_escape c _) ih

theorem quote_append (s : String) (rest : List Char) :
    quote s ++ rest = '"' :: (s.toList.flatMap escape ++ '"' :: rest) := by
  simp [quote]

theorem reads_quote (s : String) (rest : List Char) : Reads (.text s) (quote s ++ rest) rest := by
  have hs := chars_flatMap_escape s.toList rest
  rw [quote_append]
  simpa using Reads.text (skipSpace_cons rfl _) hs

/-! ## White space in front -/

theorem Reads.of_space (hgap : ∀ c ∈ gap, isSpace c) (h : Reads j cs rest) :
    Reads j (gap ++ cs) rest := by
  cases h with
  | true h => exact .true (by rwa [skipSpace_append hgap])
  | false h => exact .false (by rwa [skipSpace_append hgap])
  | text h hs => exact .text (by rwa [skipSpace_append hgap]) hs
  | array h hes => exact .array (by rwa [skipSpace_append hgap]) hes
  | object h hms => exact .object (by rwa [skipSpace_append hgap]) hms

theorem Member.of_space {m : String × Json} (hgap : ∀ c ∈ gap, isSpace c)
    (h : Member Reads m cs rest) : Member Reads m (gap ++ cs) rest := by
  obtain ⟨h, hkey, hcolon, hj⟩ := h
  exact .mk (by rwa [skipSpace_append hgap]) hkey hcolon hj

theorem isSpace_of_mem_newLine {level : Nat} : ∀ c ∈ newLine level, isSpace c := by
  intro c hc
  obtain rfl | hc := List.mem_cons.1 hc
  · rfl
  · rw [List.eq_of_mem_replicate hc]; rfl

/-! ## Lists -/

/-- The items of a list with a comma between each two, a gap and the closing mark. A list without
items has no gap. -/
def writeItems (close : Char) (gap : List Char) (write : α → List Char) : List α → List Char
  | [] => [close]
  | a :: as => write a ++ as.flatMap (fun b => ',' :: write b) ++ gap ++ [close]

variable {Item : α → List Char → List Char → Prop} {close : Char} {write : α → List Char}
  {as : List α}

theorem further_flatMap (hclose : isSpace close = false) (hgap : ∀ c ∈ gap, isSpace c)
    (h : ∀ a ∈ as, ∀ rest, Item a (write a ++ rest) rest) (rest : List Char) :
    Further Item close as (as.flatMap (fun a => ',' :: write a) ++ (gap ++ close :: rest)) rest := by
  induction as with
  | nil =>
    refine .nil ?_
    rw [List.flatMap_nil, List.nil_append, skipSpace_append hgap, skipSpace_cons hclose]
  | cons a as ih =>
    obtain ⟨ha, has⟩ := List.forall_mem_cons.1 h
    rw [List.flatMap_cons, List.append_assoc]
    exact .cons (skipSpace_cons rfl _) (ha _) (ih has)

theorem items_writeItems (hclose : isSpace close = false) (hgap : ∀ c ∈ gap, isSpace c)
    (h : ∀ a ∈ as, ∀ rest, Item a (write a ++ rest) rest) (rest : List Char) :
    Items Item close as (writeItems close gap write as ++ rest) rest := by
  cases as with
  | nil => exact .nil (skipSpace_cons hclose rest)
  | cons a as =>
    obtain ⟨ha, has⟩ := List.forall_mem_cons.1 h
    have hitems := Items.cons (ha _) (further_flatMap hclose hgap has rest)
    simpa [writeItems] using hitems

/-- A key, a colon, a gap and a value. -/
def writeMember (gap : List Char) (write : Json → List Char) (m : String × Json) : List Char :=
  quote m.1 ++ ':' :: gap ++ write m.2

theorem member_writeMember {write : Json → List Char} {m : String × Json}
    (hgap : ∀ c ∈ gap, isSpace c) (h : ∀ rest, Reads m.2 (write m.2 ++ rest) rest)
    (rest : List Char) : Member Reads m (writeMember gap write m ++ rest) rest := by
  obtain ⟨key, j⟩ := m
  have hkey := chars_flatMap_escape key.toList (':' :: (gap ++ (write j ++ rest)))
  have hmember := Member.mk (skipSpace_cons rfl _) hkey (skipSpace_cons rfl _)
    (Reads.of_space hgap (h rest))
  simpa [writeMember, quote_append] using hmember

/-! ## The form without blanks -/

theorem compactElements_eq (es : List Json) :
    compactElements es = es.flatMap fun e => ',' :: compact e := by
  induction es with
  | nil => rw [compactElements, List.flatMap_nil]
  | cons e es ih => rw [compactElements, ih, List.flatMap_cons]

theorem compactMembers_eq (ms : List (String × Json)) :
    compactMembers ms = ms.flatMap fun m => ',' :: writeMember [] compact m := by
  induction ms with
  | nil => rw [compactMembers, List.flatMap_nil]
  | cons m ms ih => simp [compactMembers, ih, writeMember]

theorem compact_array (es : List Json) :
    compact (.array es) = '[' :: writeItems ']' [] compact es := by
  cases es <;> simp [compact, writeItems, compactElements_eq]

theorem compact_object (ms : List (String × Json)) :
    compact (.object ms) = '\x7b' :: writeItems '\x7d' [] (writeMember [] compact) ms := by
  cases ms <;> simp [compact, writeItems, compactMembers_eq, writeMember]

theorem reads_writeBool (b : Bool) (rest : List Char) :
    Reads (.bool b) (writeBool b ++ rest) rest := by
  cases b with
  | true => exact .true (skipSpace_cons rfl _)
  | false => exact .false (skipSpace_cons rfl _)

theorem reads_compact (j : Json) (rest : List Char) : Reads j (compact j ++ rest) rest := by
  induction j using induction generalizing rest with
  | bool b =>
    rw [compact]
    exact reads_writeBool b rest
  | text s =>
    rw [compact]
    exact reads_quote s rest
  | array es ih =>
    rw [compact_array]
    exact .array (skipSpace_cons rfl _) (items_writeItems rfl (List.forall_mem_nil _) ih rest)
  | object ms ih =>
    rw [compact_object]
    refine .object (skipSpace_cons rfl _)
      (items_writeItems rfl (List.forall_mem_nil _) (fun m hm rest => ?_) rest)
    exact member_writeMember (List.forall_mem_nil _) (ih m hm) rest

/-! ## The form on several lines -/

theorem prettyElements_eq (n : Nat) (es : List Json) :
    prettyElements n es = es.flatMap fun e => ',' :: (newLine n ++ prettyAt n e) := by
  induction es with
  | nil => rw [prettyElements, List.flatMap_nil]
  | cons e es ih => simp [prettyElements, ih]

theorem prettyMembers_eq (n : Nat) (ms : List (String × Json)) :
    prettyMembers n ms =
      ms.flatMap fun m => ',' :: (newLine n ++ writeMember [' '] (prettyAt n) m) := by
  induction ms with
  | nil => rw [prettyMembers, List.flatMap_nil]
  | cons m ms ih => simp [prettyMembers, ih, writeMember]

theorem prettyAt_array (n : Nat) (es : List Json) :
    prettyAt n (.array es) =
      '[' :: writeItems ']' (newLine n) (fun e => newLine (n + 1) ++ prettyAt (n + 1) e) es := by
  cases es <;> simp [prettyAt, writeItems, prettyElements_eq]

theorem prettyAt_object (n : Nat) (ms : List (String × Json)) :
    prettyAt n (.object ms) =
      '\x7b' :: writeItems '\x7d' (newLine n)
        (fun m => newLine (n + 1) ++ writeMember [' '] (prettyAt (n + 1)) m) ms := by
  cases ms <;> simp [prettyAt, writeItems, prettyMembers_eq, writeMember]

theorem reads_prettyAt (n : Nat) (j : Json) (rest : List Char) :
    Reads j (prettyAt n j ++ rest) rest := by
  induction j using induction generalizing n rest with
  | bool b =>
    rw [prettyAt]
    exact reads_writeBool b rest
  | text s =>
    rw [prettyAt]
    exact reads_quote s rest
  | array es ih =>
    rw [prettyAt_array]
    refine .array (skipSpace_cons rfl _)
      (items_writeItems rfl isSpace_of_mem_newLine (fun e he rest => ?_) rest)
    rw [List.append_assoc]
    exact .of_space isSpace_of_mem_newLine (ih e he (n + 1) rest)
  | object ms ih =>
    rw [prettyAt_object]
    refine .object (skipSpace_cons rfl _)
      (items_writeItems rfl isSpace_of_mem_newLine (fun m hm rest => ?_) rest)
    rw [List.append_assoc]
    have hcolon : ∀ c ∈ [' '], isSpace c := List.forall_mem_singleton.2 rfl
    exact .of_space isSpace_of_mem_newLine (member_writeMember hcolon (ih m hm (n + 1)) rest)

/-! ## Both forms -/

theorem isTextOf_compact (j : Json) : IsTextOf (String.ofList (compact j)) j := by
  refine ⟨[], ?_, rfl⟩
  simpa using reads_compact j []

theorem isTextOf_pretty (j : Json) : IsTextOf (String.ofList (pretty j)) j := by
  refine ⟨[], ?_, rfl⟩
  simpa [pretty] using reads_prettyAt 0 j []

end Workdays.Json
