import HookRelay.EventLoop
import HookRelay.Text.Blank
import HookRelay.Text.Utf8
/-!
Input from a console, which stands in for the chat session. Every line that is not
blank is one call on the relay: a command if its first character is a slash, and
else an event of that line.
-/

namespace HookRelay.Console

/-- Puts a byte in front of lines. -/
def consByte (b : UInt8) : List (List UInt8) → List (List UInt8)
  | [] => [[b]]
  | l :: ls => (b :: l) :: ls

/-- The lines of a byte string. A line ends at a line feed or at the end of the
string; there is none after the last line feed. -/
def lines (bs : List UInt8) : List (List UInt8) :=
  bs.foldr (fun b ls => if b = 10 then [] :: ls else consByte b ls) []

/-- What a line asks for, if it is not blank. Blanks at its ends do not count. -/
def ask? (line : String) : Option Ask :=
  let body := Text.trim line
  match body.toList with
  | [] => none
  | '/' :: rest => some (.command ⟨String.ofList rest⟩)
  | _ => some (.event (.chat body))

/-- What a console was given to read. -/
structure Input where
  /-- What its lines ask for, up to the first line that is no text. -/
  asks : List Ask
  /-- Whether all lines are text. -/
  isText : Bool

/-- Reads lines up to the first one that is no text. -/
def Input.ofLines : List (List UInt8) → Input
  | [] => ⟨[], true⟩
  | l :: ls =>
    match Text.ofBytes? l with
    | none => ⟨[], false⟩
    | some line =>
      let rest := ofLines ls
      ⟨(ask? line).toList ++ rest.asks, rest.isText⟩

def Input.ofBytes (bs : List UInt8) : Input := .ofLines (lines bs)

end HookRelay.Console
