import Workdays.Json.Basic

/-!
# The grammar of JSON

A phrase of the grammar is at the front of a text, stands for something, and leaves the rest of the
text. White space may stand in front of each token. A character in quotes stands for itself or
follows a backslash, as a letter or as a code in hexadecimal digits of either case; characters
beyond U+FFFF take two codes, a high and a low surrogate. Numbers and null are left out, as they are
of the documents. Whatever the white space and the escapes, a text is of one document at most.

## Main definitions

* `Json.Chars`: the phrases for the characters of a text, up to its closing quote.
* `Json.Items`: the phrases for the items of a list, up to its closing mark.
* `Json.Reads`: the phrases for documents.
* `Json.IsTextOf`: the texts of a document.
-/

namespace Workdays.Json

variable {α : Type}

/-! ## Tokens -/

/-- The white space of the grammar. -/
def isSpace (c : Char) : Bool := c ∈ [' ', '\t', '\n', '\r']

def skipSpace (cs : List Char) : List Char := cs.dropWhile isSpace

theorem skipSpace_append {cs : List Char} (h : ∀ c ∈ cs, isSpace c) (rest : List Char) :
    skipSpace (cs ++ rest) = skipSpace rest := by
  induction cs with
  | nil => rfl
  | cons c cs ih =>
    obtain ⟨hc, hcs⟩ := List.forall_mem_cons.1 h
    rw [List.cons_append, skipSpace, List.dropWhile_cons_of_pos hc]
    exact ih hcs

theorem skipSpace_cons {c : Char} (h : isSpace c = false) (cs : List Char) :
    skipSpace (c :: cs) = c :: cs :=
  List.dropWhile_cons_of_neg (by simp [h])

theorem rest_unique {c : Char} {cs rest rest' : List Char} (h : skipSpace cs = c :: rest)
    (h' : skipSpace cs = c :: rest') : rest = rest' :=
  (List.cons.inj (h.symm.trans h')).2

def hexValue? (c : Char) : Option Nat := "0123456789abcdef".toList.idxOf? c.toLower

def hexCode? (digits : List Char) : Option Nat :=
  digits.foldlM (fun n c => (hexValue? c).map (16 * n + ·)) 0

/-- What a letter after a backslash stands for. -/
def ofLetter? : Char → Option Char
  | '"' => some '"'
  | '\\' => some '\\'
  | '/' => some '/'
  | 'b' => some '\x08'
  | 'f' => some '\x0c'
  | 'n' => some '\n'
  | 'r' => some '\r'
  | 't' => some '\t'
  | _ => none

/-- A character of a text in quotes. -/
inductive Character : Char → List Char → List Char → Prop
  | plain {c : Char} {rest : List Char} :
      0x20 ≤ c.toNat → c ≠ '"' → c ≠ '\\' → Character c (c :: rest) rest
  | letter {l c : Char} {rest : List Char} :
      ofLetter? l = some c → Character c ('\\' :: l :: rest) rest
  | code {w x y z : Char} {n : Nat} {rest : List Char} :
      hexCode? [w, x, y, z] = some n → n.isValidChar →
      Character (Char.ofNat n) ('\\' :: 'u' :: w :: x :: y :: z :: rest) rest
  | surrogates {w x y z w' x' y' z' : Char} {high low : Nat} {rest : List Char} :
      hexCode? [w, x, y, z] = some high → 0xd800 ≤ high → high < 0xdc00 →
      hexCode? [w', x', y', z'] = some low → 0xdc00 ≤ low → low < 0xe000 →
      Character (Char.ofNat (0x10000 + (high - 0xd800) * 0x400 + (low - 0xdc00)))
        ('\\' :: 'u' :: w :: x :: y :: z :: '\\' :: 'u' :: w' :: x' :: y' :: z' :: rest) rest

/-- The characters of a text, up to its closing quote. -/
inductive Chars : List Char → List Char → List Char → Prop
  | nil {rest : List Char} : Chars [] ('"' :: rest) rest
  | cons {c : Char} {s cs body rest : List Char} :
      Character c cs body → Chars s body rest → Chars (c :: s) cs rest

/-! ## Documents -/

/-- Further items of a list, each after a comma, up to a closing mark. -/
inductive Further (Item : α → List Char → List Char → Prop) (close : Char) :
    List α → List Char → List Char → Prop
  | nil {cs rest : List Char} : skipSpace cs = close :: rest → Further Item close [] cs rest
  | cons {a : α} {as : List α} {cs body next rest : List Char} :
      skipSpace cs = ',' :: body → Item a body next → Further Item close as next rest →
      Further Item close (a :: as) cs rest

/-- The items of a list, with a comma between each two, up to a closing mark. -/
inductive Items (Item : α → List Char → List Char → Prop) (close : Char) :
    List α → List Char → List Char → Prop
  | nil {cs rest : List Char} : skipSpace cs = close :: rest → Items Item close [] cs rest
  | cons {a : α} {as : List α} {cs next rest : List Char} :
      Item a cs next → Further Item close as next rest → Items Item close (a :: as) cs rest

/-- A member of an object: a key, a colon and a value. -/
inductive Member (Value : Json → List Char → List Char → Prop) :
    String × Json → List Char → List Char → Prop
  | mk {key cs body next front rest : List Char} {j : Json} :
      skipSpace cs = '"' :: body → Chars key body next → skipSpace next = ':' :: front →
      Value j front rest → Member Value (String.ofList key, j) cs rest

/-- A document, perhaps after white space. -/
inductive Reads : Json → List Char → List Char → Prop
  | true {cs rest : List Char} :
      skipSpace cs = 't' :: 'r' :: 'u' :: 'e' :: rest → Reads (.bool true) cs rest
  | false {cs rest : List Char} :
      skipSpace cs = 'f' :: 'a' :: 'l' :: 's' :: 'e' :: rest → Reads (.bool false) cs rest
  | text {s cs body rest : List Char} :
      skipSpace cs = '"' :: body → Chars s body rest → Reads (.text (String.ofList s)) cs rest
  | array {es : List Json} {cs body rest : List Char} :
      skipSpace cs = '[' :: body → Items Reads ']' es body rest → Reads (.array es) cs rest
  | object {ms : List (String × Json)} {cs body rest : List Char} :
      skipSpace cs = '\x7b' :: body → Items (Member Reads) '\x7d' ms body rest →
      Reads (.object ms) cs rest

/-- The text is a form of a document, with nothing but white space around it. -/
def IsTextOf (text : String) (j : Json) : Prop :=
  ∃ rest, j.Reads text.toList rest ∧ skipSpace rest = []

/-! ## Unambiguity -/

variable {Item : α → List Char → List Char → Prop} {close c : Char} {as : List α}
  {cs body rest : List Char} {j k : Json}

/-- Where a phrase for the value is at the front of a text, there is no other phrase. -/
def Settles (Item : α → List Char → List Char → Prop) (a : α) : Prop :=
  ∀ ⦃b : α⦄ ⦃cs rest rest' : List Char⦄, Item a cs rest → Item b cs rest' → a = b ∧ rest = rest'

/-- No code of a surrogate is the code of a character. -/
theorem not_isValidChar {n : Nat} (h : 0xd800 ≤ n) (h' : n < 0xdc00) : ¬ n.isValidChar := by
  rintro (hn | ⟨hn, -⟩) <;> omega

theorem settles_character (c : Char) : Settles Character c := by
  intro c' cs rest rest' h h'
  cases h with
  | plain _ _ hbackslash =>
    cases h' with
    | plain => exact ⟨rfl, rfl⟩
    | _ => contradiction
  | letter hl =>
    cases h' with
    | plain => contradiction
    | letter hl' => exact ⟨Option.some.inj (hl.symm.trans hl'), rfl⟩
    | code => cases hl
    | surrogates => cases hl
  | code hn hvalid =>
    cases h' with
    | plain => contradiction
    | letter hl => cases hl
    | code hn' => exact ⟨by rw [Option.some.inj (hn.symm.trans hn')], rfl⟩
    | surrogates hn' hle hlt =>
      obtain rfl := Option.some.inj (hn.symm.trans hn')
      exact absurd hvalid (not_isValidChar hle hlt)
  | surrogates hhigh hle hlt hlow =>
    cases h' with
    | plain => contradiction
    | letter hl => cases hl
    | code hn' hvalid =>
      obtain rfl := Option.some.inj (hhigh.symm.trans hn')
      exact absurd hvalid (not_isValidChar hle hlt)
    | surrogates hhigh' _ _ hlow' =>
      obtain rfl := Option.some.inj (hhigh.symm.trans hhigh')
      obtain rfl := Option.some.inj (hlow.symm.trans hlow')
      exact ⟨rfl, rfl⟩

/-- A quote stands for itself only after a backslash. -/
theorem not_character_quote : ¬ Character c ('"' :: cs) rest := by
  rintro (_ | _)
  contradiction

theorem settles_chars (s : List Char) : Settles Chars s := by
  intro s' cs rest rest' h h'
  induction h generalizing s' with
  | nil =>
    cases h' with
    | nil => exact ⟨rfl, rfl⟩
    | cons hc => exact absurd hc not_character_quote
  | cons hc _ ih =>
    cases h' with
    | nil => exact absurd hc not_character_quote
    | cons hc' hs' =>
      obtain ⟨rfl, rfl⟩ := settles_character _ hc hc'
      obtain ⟨rfl, rfl⟩ := ih hs'
      exact ⟨rfl, rfl⟩

theorem settles_further (hItem : ∀ a ∈ as, Settles Item a) (hclose : ',' ≠ close) :
    Settles (Further Item close) as := by
  intro bs cs rest rest' h h'
  induction h generalizing bs with
  | nil hcs =>
    cases h' with
    | nil hcs' => exact ⟨rfl, rest_unique hcs hcs'⟩
    | cons hcs' => simp_all
  | cons hcs ha _ ih =>
    obtain ⟨hsettles, hItem⟩ := List.forall_mem_cons.1 hItem
    cases h' with
    | nil hcs' => simp_all
    | cons hcs' hb hbs =>
      obtain rfl := rest_unique hcs hcs'
      obtain ⟨rfl, rfl⟩ := hsettles ha hb
      obtain ⟨rfl, rfl⟩ := ih hItem hbs
      exact ⟨rfl, rfl⟩

/-- A list is settled by its items, if none of them starts with the closing mark. -/
theorem settles_items (hItem : ∀ a ∈ as, Settles Item a) (hclose : ',' ≠ close)
    (hstart : ∀ {a cs body rest}, skipSpace cs = close :: body → ¬ Item a cs rest) :
    Settles (Items Item close) as := by
  intro bs cs rest rest' h h'
  cases h with
  | nil hcs =>
    cases h' with
    | nil hcs' => exact ⟨rfl, rest_unique hcs hcs'⟩
    | cons hb => exact absurd hb (hstart hcs)
  | cons ha has =>
    obtain ⟨hsettles, hItem⟩ := List.forall_mem_cons.1 hItem
    cases h' with
    | nil hcs' => exact absurd ha (hstart hcs')
    | cons hb hbs =>
      obtain ⟨rfl, rfl⟩ := hsettles ha hb
      obtain ⟨rfl, rfl⟩ := settles_further hItem hclose has hbs
      exact ⟨rfl, rfl⟩

theorem settles_member {m : String × Json} (h : Settles Reads m.2) : Settles (Member Reads) m := by
  rintro m' cs rest rest' ⟨hcs, hkey, hnext, hj⟩ ⟨hcs', hkey', hnext', hj'⟩
  obtain rfl := rest_unique hcs hcs'
  obtain ⟨rfl, rfl⟩ := settles_chars _ hkey hkey'
  obtain rfl := rest_unique hnext hnext'
  obtain ⟨rfl, rfl⟩ := h hj hj'
  exact ⟨rfl, rfl⟩

/-- A list is over where its closing mark stands, since no document starts with the mark. -/
theorem not_reads_of_close (h : skipSpace cs = ']' :: body) : ¬ Reads j cs rest := by
  rintro (h' | h' | h' | h' | h') <;> simp [h] at h'

theorem not_member_of_close {m : String × Json} (h : skipSpace cs = '\x7d' :: body) :
    ¬ Member Reads m cs rest := by
  rintro ⟨h'⟩
  simp [h] at h'

/-- A statement of all documents from the statement of their parts. -/
@[elab_as_elim]
theorem induction {motive : Json → Prop} (bool : ∀ b, motive (.bool b))
    (text : ∀ s, motive (.text s)) (array : ∀ es, (∀ e ∈ es, motive e) → motive (.array es))
    (object : ∀ ms, (∀ m ∈ ms, motive m.2) → motive (.object ms)) : ∀ j, motive j
  | .bool b => bool b
  | .text s => text s
  | .array es => array es fun e _ => induction bool text array object e
  | .object ms => object ms fun m _ => induction bool text array object m.2
decreasing_by
  · simp only [Json.array.sizeOf_spec]
    have := List.sizeOf_lt_of_mem ‹e ∈ es›
    omega
  · simp only [Json.object.sizeOf_spec]
    have := List.sizeOf_lt_of_mem ‹m ∈ ms›
    have : sizeOf m = 1 + sizeOf m.1 + sizeOf m.2 := rfl
    omega

/-- The first character tells the kind of a document, and each kind settles the rest. -/
theorem settles_reads (j : Json) : Settles Reads j := by
  induction j using induction with
  | bool b =>
    rintro k cs rest rest' (h | h) (h' | h' | h' | h' | h') <;> simp_all
  | text s =>
    intro k cs rest rest' h h'
    cases h with
    | text hcs hs =>
      cases h' with
      | text hcs' hs' =>
        obtain rfl := rest_unique hcs hcs'
        obtain ⟨rfl, rfl⟩ := settles_chars _ hs hs'
        exact ⟨rfl, rfl⟩
      | _ => simp_all
  | array es ih =>
    intro k cs rest rest' h h'
    cases h with
    | array hcs hes =>
      cases h' with
      | array hcs' hes' =>
        obtain rfl := rest_unique hcs hcs'
        obtain ⟨rfl, rfl⟩ := settles_items ih (by decide) not_reads_of_close hes hes'
        exact ⟨rfl, rfl⟩
      | _ => simp_all
  | object ms ih =>
    intro k cs rest rest' h h'
    cases h with
    | object hcs hms =>
      cases h' with
      | object hcs' hms' =>
        obtain rfl := rest_unique hcs hcs'
        have hmembers m hm := settles_member (ih m hm)
        obtain ⟨rfl, rfl⟩ := settles_items hmembers (by decide) not_member_of_close hms hms'
        exact ⟨rfl, rfl⟩
      | _ => simp_all

/-- A text is of one document at most. -/
theorem IsTextOf.unique {text : String} (h : IsTextOf text j) (h' : IsTextOf text k) : j = k := by
  obtain ⟨rest, hj, -⟩ := h
  obtain ⟨rest', hk, -⟩ := h'
  exact (settles_reads j hj hk).1

end Workdays.Json
