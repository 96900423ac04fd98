namespace HookRelay.Toml

/-- Something to be found at the front of a text. -/
abbrev Scanner (α : Type) := StateT (List Char) Option α

namespace Scanner

variable {α β : Type}

/-- The longest front of a text whose characters all belong to a class. -/
def run (p : Char → Bool) : Scanner (List Char) := fun cs =>
  some (cs.takeWhile p, cs.dropWhile p)

/-- The same, with at least one character. -/
def run1 (p : Char → Bool) : Scanner (List Char) := fun cs =>
  if (cs.takeWhile p).isEmpty then none else some (cs.takeWhile p, cs.dropWhile p)

/-- One character of a class. -/
def one (p : Char → Bool) : Scanner Char
  | c :: cs => if p c then some (c, cs) else none
  | [] => none

/-- One particular character. -/
def char (c : Char) : Scanner Unit := fun cs =>
  match cs with
  | d :: ds => if d = c then some ((), ds) else none
  | [] => none

/-- A fixed sequence of characters. -/
def word : List Char → Scanner Unit
  | [] => pure ()
  | c :: w => do
    char c
    word w

/-- Exactly `n` characters of a class. -/
def exactly (p : Char → Bool) : Nat → Scanner (List Char)
  | 0 => pure []
  | n + 1 => return (← one p) :: (← exactly p n)

/-- The next character, which stays in the text. -/
def peek : Scanner (Option Char) := fun cs => some (cs.head?, cs)

/-- Something that may be missing. -/
def maybe (s : Scanner α) : Scanner (Option α) := fun cs =>
  match s cs with
  | some (a, rest) => some (some a, rest)
  | none => some (none, cs)

/-- Repeats a scanner as often as it succeeds, at most `fuel` times. -/
def many (s : Scanner α) : (fuel : Nat) → Scanner (List α)
  | 0 => pure []
  | fuel + 1 => fun cs =>
    match s cs with
    | some (a, rest) => (many s fuel rest).map fun (as, rest) => (a :: as, rest)
    | none => some ([], cs)

/-- As many of a scanner as follow one another. Each takes at least one
character. -/
def all (s : Scanner α) : Scanner (List α) := fun cs => many s cs.length cs

/-- One or more of a scanner with a separator between them. -/
def separated (s : Scanner α) (sep : Scanner Unit) : Scanner (List α) := do
  let first ← s
  let rest ← all do
    sep
    s
  return first :: rest

/-- Goes on only if a condition holds. -/
def check (b : Bool) : Scanner Unit := if b then pure () else failure

end Scanner

def isDigit (c : Char) : Bool := '0' ≤ c && c ≤ '9'

def isHexDigit (c : Char) : Bool :=
  isDigit c || ('a' ≤ c && c ≤ 'f') || ('A' ≤ c && c ≤ 'F')

/-- A blank within a line. -/
def isSpace (c : Char) : Bool := c == ' ' || c == '\t'

/-- A character that may stand in a comment. -/
def isCommentChar (c : Char) : Bool := c == '\t' || '\u0020' ≤ c

/-- A character that stands for itself in a text, but for the ones that end a text
or start an escape. -/
def isTextChar (c : Char) : Bool :=
  c == '\t' || ('\u0020' ≤ c && c ≤ '\u007e') || '\u0080' ≤ c

/-- The value of a digit. -/
def digitValue (c : Char) : Nat :=
  if isDigit c then c.toNat - '0'.toNat
  else if 'a' ≤ c && c ≤ 'f' then c.toNat - 'a'.toNat + 10
  else c.toNat - 'A'.toNat + 10

/-- The number that digits stand for in a base. -/
def numberOf (base : Nat) (ds : List Char) : Nat :=
  ds.foldl (fun n d => n * base + digitValue d) 0

open Scanner

/-- Blanks within a line. -/
def spaces : Scanner Unit := do
  let _ ← run isSpace

/-- The end of a line. -/
def newline : Scanner Unit := do
  let _ ← maybe (char '\r')
  char '\n'

/-- A comment, up to the end of its line. -/
def comment : Scanner Unit := do
  char '#'
  let _ ← run isCommentChar

/-- The end of a line or of the text. -/
def lineEnd : Scanner Unit := fun cs =>
  if cs.isEmpty then some ((), []) else newline cs

/-- What may follow a value or a header on its line. -/
def lineRest : Scanner Unit := do
  spaces
  let _ ← maybe comment
  lineEnd

/-- Blanks, comments and line ends between the items of an array. -/
def gaps : Scanner Unit := do
  let _ ← all ((do let _ ← run1 isSpace) <|> newline <|> comment)

end HookRelay.Toml
