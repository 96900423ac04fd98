import HookRelay.Toml.Moment
import HookRelay.Toml.Number
import HookRelay.Toml.Quoted
import HookRelay.Toml.Value

namespace HookRelay.Toml

open Scanner

/-- How deep arrays and braces may nest. -/
def maxNesting : Nat := 79

/-- How many parts a dotted key may have. -/
def maxKeyParts : Nat := 79

/-- A key of one or more parts: the parts before the last one, and the last. -/
def dottedKey : Scanner (List String × String) := do
  let part : Scanner String := do
    spaces
    let k ← simpleKey
    spaces
    pure k
  let parts ← separated part (char '.')
  check (parts.length ≤ maxKeyParts)
  return (parts.dropLast, parts.getLastD "")

/-- Puts a value into a table in braces, under the tables of a dotted path. Only
tables that dotted keys made may take in more. -/
def Entries.putInline (key : String) (v : Value) : List String → Entries → Option Entries
  | [], es => es.add? key v
  | p :: path, es =>
    match es.get? p with
    | none => (putInline key v path []).map fun inner => es ++ [(p, .table .dotted inner)]
    | some (.table .dotted inner) =>
      (putInline key v path inner).map fun inner => es.set p (.table .dotted inner)
    | some _ => none

/-- An array, whose items are read by `item`. -/
def arrayOf (item : Scanner Value) : Scanner Value := do
  char '['
  let spaced : Scanner Value := do
    gaps
    let v ← item
    gaps
    pure v
  let items ← maybe do
    let vs ← separated spaced (char ',')
    let _ ← maybe (char ',')
    pure vs
  gaps
  char ']'
  return .array (items.getD [])

/-- A table in braces, whose values are read by `item`. -/
def bracesOf (item : Scanner Value) : Scanner Value := do
  char '\x7b'
  let pair : Scanner ((List String × String) × Value) := do
    let k ← dottedKey
    char '='
    spaces
    let v ← item
    spaces
    pure (k, v)
  let pairs ← maybe (separated pair (char ','))
  spaces
  char '\x7d'
  let put : Entries → (List String × String) × Value → Option Entries :=
    fun es e => es.putInline e.1.2 e.2 e.1.1
  match (pairs.getD []).foldlM put [] with
  | some es => pure (.table .inline es)
  | none => failure

/-- A value other than an array or a table. -/
def scalar : Scanner Value := do
  match ← peek with
  | some '"' | some '\'' => return .text (← quoted)
  | some 't' =>
    word ['t', 'r', 'u', 'e']
    return .boolean true
  | some 'f' =>
    word ['f', 'a', 'l', 's', 'e']
    return .boolean false
  | _ => (do moment; pure .moment) <|> (do float; pure .float) <|>
    (do return .integer (← integer))

/-- A value in which arrays and braces nest at most `depth` deep. -/
def value : (depth : Nat) → Scanner Value
  | 0 => scalar
  | depth + 1 => do
    match ← peek with
    | some '[' => arrayOf (value depth)
    | some '\x7b' => bracesOf (value depth)
    | _ => scalar

/-- One line of a document. -/
inductive Line where
  | blank
  /-- The header of a table. -/
  | header (path : List String) (key : String)
  /-- The header of one more table of an array. -/
  | element (path : List String) (key : String)
  | entry (path : List String) (key : String) (v : Value)

/-- A header in single or double brackets. -/
def headerLine : Scanner Line := do
  char '['
  match ← maybe (char '[') with
  | some _ =>
    let (path, key) ← dottedKey
    word [']', ']']
    lineRest
    return .element path key
  | none =>
    let (path, key) ← dottedKey
    char ']'
    lineRest
    return .header path key

/-- A key with its value. -/
def entryLine : Scanner Line := do
  let (path, key) ← dottedKey
  char '='
  spaces
  let v ← value maxNesting
  lineRest
  return .entry path key v

/-- A line of a document, which is not empty. -/
def line : Scanner Line := do
  spaces
  match ← peek with
  | none => pure .blank
  | some '#' =>
    comment
    lineEnd
    return .blank
  | some '\n' | some '\x0d' =>
    newline
    return .blank
  | some '[' => headerLine
  | _ => entryLine

/-- Changes the table at a path of headers with `f`. Tables that are missing on
the way are opened; of an array of tables the last one is meant. -/
def Entries.descend (f : Entries → Option Entries) : List String → Entries → Option Entries
  | [], es => f es
  | p :: path, es =>
    match es.get? p with
    | none => (descend f path []).map fun inner => es ++ [(p, .table .implied inner)]
    | some (.table .inline _) => none
    | some (.table origin inner) =>
      (descend f path inner).map fun inner => es.set p (.table origin inner)
    | some (.tables elements) =>
      match elements.getLast? with
      | none => none
      | some inner =>
        (descend f path inner).map fun inner => es.set p (.tables (elements.dropLast ++ [inner]))
    | some _ => none

/-- Puts a value into a table, under the tables of a dotted path. The value may
only join a table that dotted keys made, unless the path is empty. -/
def Entries.put (key : String) (v : Value) : List String → Entries → Option Entries
  | [], es => es.add? key v
  | p :: path, es =>
    match es.get? p with
    | none => (put key v path []).map fun inner => es ++ [(p, .table .dotted inner)]
    | some (.table .dotted inner) =>
      (put key v path inner).map fun inner => es.set p (.table .dotted inner)
    | some (.table .implied inner) =>
      if path.isEmpty then none
      else (put key v path inner).map fun inner => es.set p (.table .implied inner)
    | some (.tables elements) =>
      match path, elements.getLast? with
      | _ :: _, some inner =>
        (put key v path inner).map fun inner => es.set p (.tables (elements.dropLast ++ [inner]))
      | _, _ => none
    | some _ => none

/-- A document while it is read: what is complete, and the table that is open,
with the place where it belongs. -/
structure Draft where
  root : Entries := []
  opened : Entries := []
  /-- Absent while the open table is the top one. -/
  place : Option (Bool × List String × String) := none

namespace Draft

/-- The document with its open table put where it belongs. -/
def settle (d : Draft) : Option Entries :=
  match d.place with
  | none => some d.opened
  | some (false, path, key) => d.root.descend (·.add? key (.table .header d.opened)) path
  | some (true, path, key) =>
    d.root.descend (fun es =>
      match es.get? key with
      | none => some (es ++ [(key, .tables [d.opened])])
      | some (.tables elements) => some (es.set key (.tables (elements ++ [d.opened])))
      | some _ => none) path

/-- Opens the table of a header. A table that only lay on the way to another one
may be opened once. -/
def openTable (root : Entries) (path : List String) (key : String) : Option Draft := do
  let found ← root.descend some path
  let parent ← lookup path found
  match parent.get? key with
  | none => return { root := found, opened := [], place := some (false, path, key) }
  | some (.table .implied inner) =>
    let rest ← found.descend (fun es => some (es.remove key)) path
    return { root := rest, opened := inner, place := some (false, path, key) }
  | some _ => none
where
  /-- The table at a path of headers. -/
  lookup : List String → Entries → Option Entries
    | [], es => some es
    | p :: path, es =>
      match es.get? p with
      | some (.table _ inner) => lookup path inner
      | some (.tables elements) => elements.getLast?.bind (lookup path)
      | _ => none

/-- Opens one more table of an array. -/
def openElement (root : Entries) (path : List String) (key : String) : Option Draft := do
  let ready : Entries → Option Entries := fun es =>
    match es.get? key with
    | none | some (.tables _) => some es
    | some _ => none
  let root ← root.descend ready path
  return { root, opened := [], place := some (true, path, key) }

/-- The draft after one more line. -/
def add (d : Draft) : Line → Option Draft
  | .blank => some d
  | .entry path key v => (d.opened.put key v path).map fun opened => { d with opened }
  | .header path key => d.settle.bind fun root => openTable root path key
  | .element path key => d.settle.bind fun root => openElement root path key

end Draft

/-- Reads line after line up to the end of the text. -/
def readLines : (fuel : Nat) → Draft → List Char → Option Draft
  | _, d, [] => some d
  | 0, _, _ :: _ => none
  | fuel + 1, d, cs => do
    let (l, rest) ← line cs
    readLines fuel (← d.add l) rest

/-- The entries of a document's top table. A byte order mark in front is
skipped. -/
def parse? (text : String) : Option Entries :=
  let cs :=
    match text.toList with
    | '\ufeff' :: cs => cs
    | cs => cs
  (readLines (cs.length + 1) {} cs).bind Draft.settle

end HookRelay.Toml
