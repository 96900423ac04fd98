import HookRelay.Toml.Scanner
/-!
Numbers. An integer has to fit 64 bits. A number with a fraction or an exponent
is told apart from an integer, but its value is not kept; it is refused when it
lies above all finite numbers of double precision.
-/

namespace HookRelay.Toml

open Scanner

/-- Digits with single underscores between them. -/
def digits (p : Char → Bool) : Scanner (List Char) := do
  let first ← one p
  let rest ← all do
    let _ ← maybe (char '_')
    one p
  return first :: rest

/-- Digits in decimal without a leading zero. -/
def decimalDigits : Scanner (List Char) := do
  match ← peek with
  | some '0' => return [← one isDigit]
  | _ => digits isDigit

/-- A sign, which may be missing; whether it is a minus. -/
def sign : Scanner Bool := do
  match ← maybe (one fun c => c == '+' || c == '-') with
  | some c => return c == '-'
  | none => return false

/-- An integer in a base that a letter after a zero gives. -/
def basedInteger (letter : Char) (base : Nat) (p : Char → Bool) : Scanner Int := do
  word ['0', letter]
  let n := numberOf base (← digits p)
  check (n ≤ Int64.maxValue.toInt)
  return n

/-- An integer in decimal. -/
def decimalInteger : Scanner Int := do
  let minus ← sign
  let n := numberOf 10 (← decimalDigits)
  let i : Int := if minus then -n else n
  check (Int64.minValue.toInt ≤ i && i ≤ Int64.maxValue.toInt)
  return i

def integer : Scanner Int := fun cs =>
  match cs with
  | '0' :: 'x' :: _ => basedInteger 'x' 16 isHexDigit cs
  | '0' :: 'o' :: _ => basedInteger 'o' 8 (fun c => '0' ≤ c && c ≤ '7') cs
  | '0' :: 'b' :: _ => basedInteger 'b' 2 (fun c => c == '0' || c == '1') cs
  | _ => decimalInteger cs

/-- An exponent. -/
def exponent : Scanner Int := do
  let _ ← one fun c => c == 'e' || c == 'E'
  let minus ← sign
  let n := numberOf 10 (← digits isDigit)
  return if minus then -n else n

/-- Whether `n * 10^e` rounds to infinity in double precision: it is at least
half a step above the greatest finite number. -/
def roundsToInfinity (n : Nat) (e : Int) : Bool :=
  let bound := Nat.pow 2 1024 - Nat.pow 2 970
  let magnitude : Int := (Nat.toDigits 10 n).length + e
  if n = 0 || magnitude < 300 then false
  else if magnitude > 320 then true
  else
    match e with
    | .ofNat e => n * Nat.pow 10 e ≥ bound
    | .negSucc e => n ≥ bound * Nat.pow 10 (e + 1)

/-- A number with a fraction, an exponent or both. -/
def decimalFloat : Scanner Unit := do
  let minus ← sign
  let whole ← decimalDigits
  let fraction ← maybe do
    char '.'
    digits isDigit
  let power ← maybe exponent
  check (fraction.isSome || power.isSome)
  let places := fraction.getD []
  let n := numberOf 10 (whole ++ places)
  check (minus || !roundsToInfinity n (power.getD 0 - places.length))

/-- Infinity and the value that is not a number. -/
def specialFloat : Scanner Unit := do
  let _ ← sign
  word ['i', 'n', 'f'] <|> word ['n', 'a', 'n']

def float : Scanner Unit := decimalFloat <|> specialFloat

end HookRelay.Toml
