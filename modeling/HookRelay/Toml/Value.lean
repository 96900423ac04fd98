/-!
Configuration documents as trees of values. A table remembers how it came into
the document, because that decides what may still be added to it.
-/

namespace HookRelay.Toml

/-- How a table came into a document. -/
inductive Origin where
  /-- By a header of its own. -/
  | header
  /-- On the way to the table of a header. -/
  | implied
  /-- On the way to the value of a dotted key. -/
  | dotted
  /-- As a value in braces. -/
  | inline
  deriving DecidableEq, Repr

/-- A value of a document. Of numbers with a fraction and of dates and times only
their kind is kept. -/
inductive Value where
  | text (s : String)
  | integer (i : Int)
  | float
  | boolean (b : Bool)
  | moment
  | array (items : List Value)
  | table (origin : Origin) (entries : List (String × Value))
  /-- The tables of one header in double brackets. -/
  | tables (elements : List (List (String × Value)))

/-- The entries of a table. -/
abbrev Entries := List (String × Value)

/-- The value under a key, if there is one. -/
def Entries.get? (es : Entries) (key : String) : Option Value :=
  es.lookup key

/-- The entries with a key set to a value: in its place, or at the end. -/
def Entries.set (key : String) (v : Value) : Entries → Entries
  | [] => [(key, v)]
  | (k, w) :: es => if k = key then (k, v) :: es else (k, w) :: Entries.set key v es

/-- The entries without a key. -/
def Entries.remove (es : Entries) (key : String) : Entries :=
  es.filter (·.1 ≠ key)

/-- The entries with a new key, if it is new. -/
def Entries.add? (es : Entries) (key : String) (v : Value) : Option Entries :=
  if (es.get? key).isSome then none else some (es ++ [(key, v)])

end HookRelay.Toml
