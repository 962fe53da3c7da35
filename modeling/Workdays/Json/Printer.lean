import Workdays.Json.Basic

/-!
# Printing JSON

A document is printed without any blanks, or with each element and each member on a line of its own,
indented by two blanks a level; lists and objects without anything in them stay on their line. In
a text the quote, the backslash and the control characters below U+0020 are escaped, five of these
by a letter and the others by their code in lower case.

## Main definitions

* `Json.quote`: the form of a text.
* `Json.compact`, `Json.pretty`: the two forms of a document.
-/

namespace Workdays.Json

def hexDigit (n : Nat) : Char := Nat.digitChar n

def escape (c : Char) : List Char :=
  if c = '"' then ['\\', '"']
  else if c = '\\' then ['\\', '\\']
  else if c = '\x08' then ['\\', 'b']
  else if c = '\t' then ['\\', 't']
  else if c = '\n' then ['\\', 'n']
  else if c = '\x0c' then ['\\', 'f']
  else if c = '\r' then ['\\', 'r']
  else if c.toNat < 0x20 then
    ['\\', 'u', '0', '0', hexDigit (c.toNat / 16), hexDigit (c.toNat % 16)]
  else [c]

def quote (s : String) : List Char := '"' :: s.toList.flatMap escape ++ ['"']

def writeBool (b : Bool) : List Char := (if b then "true" else "false").toList

mutual

/-- The form without blanks. -/
def compact : Json → List Char
  | .bool b => writeBool b
  | .text s => quote s
  | .array [] => ['[', ']']
  | .array (e :: es) => '[' :: compact e ++ compactElements es ++ [']']
  | .object [] => ['\x7b', '\x7d']
  | .object ((key, e) :: ms) =>
    '\x7b' :: quote key ++ ':' :: compact e ++ compactMembers ms ++ ['\x7d']

/-- Further elements, with a comma before each. -/
def compactElements : List Json → List Char
  | [] => []
  | e :: es => ',' :: compact e ++ compactElements es

/-- Further members, with a comma before each. -/
def compactMembers : List (String × Json) → List Char
  | [] => []
  | (key, e) :: ms => ',' :: quote key ++ ':' :: compact e ++ compactMembers ms

end

/-- A line break and the indentation of a level. -/
def newLine (level : Nat) : List Char := '\n' :: List.replicate (2 * level) ' '

mutual

/-- The form on several lines, within a number of levels. -/
def prettyAt : (level : Nat) → Json → List Char
  | _, .bool b => writeBool b
  | _, .text s => quote s
  | _, .array [] => ['[', ']']
  | n, .array (e :: es) =>
    '[' :: newLine (n + 1) ++ prettyAt (n + 1) e ++ prettyElements (n + 1) es ++ newLine n ++ [']']
  | _, .object [] => ['\x7b', '\x7d']
  | n, .object ((key, e) :: ms) =>
    '\x7b' :: newLine (n + 1) ++ quote key ++ [':', ' '] ++ prettyAt (n + 1) e
      ++ prettyMembers (n + 1) ms ++ newLine n ++ ['\x7d']

/-- Further elements, each on a line of its own. -/
def prettyElements : (level : Nat) → List Json → List Char
  | _, [] => []
  | n, e :: es => ',' :: newLine n ++ prettyAt n e ++ prettyElements n es

/-- Further members, each on a line of its own. -/
def prettyMembers : (level : Nat) → List (String × Json) → List Char
  | _, [] => []
  | n, (key, e) :: ms =>
    ',' :: newLine n ++ quote key ++ [':', ' '] ++ prettyAt n e ++ prettyMembers n ms

end

def pretty (j : Json) : List Char := prettyAt 0 j

end Workdays.Json
