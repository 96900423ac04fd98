import HookRelay.Toml.Scanner

namespace HookRelay.Toml

open Scanner

/-- The character with a code point that is written in hexadecimal. -/
def hexChar (width : Nat) : Scanner Char := do
  let n := numberOf 16 (← exactly isHexDigit width)
  if h : n.isValidChar then pure (Char.ofNatAux n h) else failure

/-- An escape, without the backslash in front. -/
def escape : Scanner Char := do
  match ← one (fun _ => true) with
  | 'b' => pure '\u0008'
  | 't' => pure '\t'
  | 'n' => pure '\n'
  | 'f' => pure '\u000c'
  | 'r' => pure '\r'
  | '"' => pure '"'
  | '\\' => pure '\\'
  | 'u' => hexChar 4
  | 'U' => hexChar 8
  | _ => failure

/-- A backslash at the end of a line, with all blanks and line ends after it. -/
def lineFold : Scanner Unit := do
  char '\\'
  spaces
  newline
  let _ ← all ((do let _ ← run1 isSpace) <|> newline)

/-- A piece of a text in double quotes. -/
def escapablePiece : Scanner (List Char) :=
  run1 (fun c => isTextChar c && c != '"' && c != '\\') <|> do
    char '\\'
    return [← escape]

/-- A piece of a text in three double quotes, other than a quote. A line end
stands for a line feed. -/
def foldablePiece : Scanner (List Char) :=
  (do lineFold; pure []) <|> escapablePiece <|> (do newline; pure ['\n'])

/-- A piece of a text in three single quotes, other than a quote. -/
def plainPiece : Scanner (List Char) :=
  run1 (fun c => isTextChar c && c != '\'') <|> (do newline; pure ['\n'])

/-- The quotes at the end of a text in three quotes: up to two of them belong to
the text. -/
def closing (q : Char) : Scanner (List Char) := do
  word [q, q, q]
  let first ← maybe (char q)
  let second ← maybe (if first.isSome then char q else failure)
  return List.replicate ((if first.isSome then 1 else 0) + (if second.isSome then 1 else 0)) q

/-- One or two quotes inside a text in three quotes. -/
def innerQuote (q : Char) : Scanner (List Char) := fun cs =>
  match word [q, q, q] cs with
  | some _ => none
  | none => (do char q; pure [q] : Scanner (List Char)) cs

/-- A text in three quotes. -/
def block (q : Char) (piece : Scanner (List Char)) : Scanner String := do
  word [q, q, q]
  let _ ← maybe newline
  let body ← all (piece <|> innerQuote q)
  let last ← closing q
  return String.ofList (body.flatten ++ last)

/-- A text in double quotes. -/
def escaped : Scanner String := do
  char '"'
  let body ← all escapablePiece
  char '"'
  return String.ofList body.flatten

/-- A text in single quotes. -/
def literal : Scanner String := do
  char '\''
  let body ← run (fun c => isTextChar c && c != '\'')
  char '\''
  return String.ofList body

/-- A text in quotes of any kind. -/
def quoted : Scanner String := fun cs =>
  match cs with
  | '"' :: '"' :: '"' :: _ => block '"' foldablePiece cs
  | '"' :: _ => escaped cs
  | '\'' :: '\'' :: '\'' :: _ => block '\'' plainPiece cs
  | _ => literal cs

/-- A key, with or without quotes. -/
def simpleKey : Scanner String := do
  match ← peek with
  | some '"' => escaped
  | some '\'' => literal
  | _ =>
    let isBare : Char → Bool := fun c => c.isAlphanum || c == '-' || c == '_'
    return String.ofList (← run1 isBare)

end HookRelay.Toml
