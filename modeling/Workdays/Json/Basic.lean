/-!
# JSON documents

The documents that schedules are exported to: truth values, texts, lists, and objects with their
members in order.
-/

namespace Workdays

/-- A JSON document without numbers or null. -/
inductive Json where
  | bool (b : Bool)
  | text (s : String)
  | array (elements : List Json)
  | object (members : List (String × Json))
  deriving Inhabited

end Workdays
