namespace HookRelay

/-- A host by its number. -/
inductive Host where
  | v4 (a b c d : Nat)
  /-- The eight groups, and the scope if it is not zero. -/
  | v6 (groups : List Nat) (scope : Nat)
  deriving DecidableEq, Repr

structure Address where
  host : Host
  port : Nat
  deriving DecidableEq, Repr

/-- The host with its parts in decimal, or its groups in hexadecimal. -/
def Host.text : Host → String
  | .v4 a b c d => ".".intercalate ([a, b, c, d].map toString)
  | .v6 groups _ => ":".intercalate (groups.map fun g => String.ofList (Nat.toDigits 16 g))

namespace Address

/-- The value of a digit in bases up to sixteen. -/
def digit? (base : Nat) (c : Char) : Option Nat :=
  let value :=
    if '0' ≤ c ∧ c ≤ '9' then c.toNat - '0'.toNat
    else if 'a' ≤ c ∧ c ≤ 'f' then c.toNat - 'a'.toNat + 10
    else if 'A' ≤ c ∧ c ≤ 'F' then c.toNat - 'A'.toNat + 10
    else base
  if value < base then some value else none

/-- Reads a number below `bound` and gives what is left. -/
def number? (base bound : Nat) (cs : List Char) : Option (Nat × List Char) :=
  let digits := cs.takeWhile fun c => (digit? base c).isSome
  let value := digits.foldl (fun n c => n * base + (digit? base c).getD 0) 0
  if digits.isEmpty ∨ value ≥ bound then none else some (value, cs.drop digits.length)

/-- Reads one part of an IPv4 host, which has no leading zero. -/
def part? (cs : List Char) : Option (Nat × List Char) :=
  match cs with
  | '0' :: c :: _ => if (digit? 10 c).isSome then none else number? 10 256 cs
  | _ => number? 10 256 cs

/-- Reads the parts of an IPv4 host. -/
def v4? (cs : List Char) : Option (List Nat × List Char) := do
  let (a, cs) ← part? cs
  let '.' :: cs := cs | none
  let (b, cs) ← part? cs
  let '.' :: cs := cs | none
  let (c, cs) ← part? cs
  let '.' :: cs := cs | none
  let (d, cs) ← part? cs
  return ([a, b, c, d], cs)

/-- Reads a group of an IPv6 host: one to four hexadecimal digits. -/
def group? (cs : List Char) : Option (Nat × List Char) := do
  let (n, rest) ← number? 16 65536 cs
  if cs.length - rest.length > 4 then none else some (n, rest)

/-- Reads up to `limit` groups of an IPv6 host, as many as there are. The last
two may be written as an IPv4 host; nothing may follow one. -/
def groups (first : Bool) : (limit : Nat) → List Char → List Nat × Bool × List Char
  | 0, cs => ([], false, cs)
  | limit + 1, cs =>
    let next := if first then some cs else
      match cs with
      | ':' :: cs => some cs
      | _ => none
    let embedded := if limit = 0 then none else next.bind v4?
    match embedded, next.bind group? with
    | some ([a, b, c, d], rest), _ => ([a * 256 + b, c * 256 + d], true, rest)
    | _, some (g, rest) =>
      let (gs, v4, rest) := groups false limit rest
      (g :: gs, v4, rest)
    | _, none => ([], false, cs)

/-- Reads the groups of an IPv6 host. A double colon stands for one or more
groups of zero. -/
def v6? (cs : List Char) : Option (List Nat × List Char) :=
  let (front, v4, rest) := groups true 8 cs
  if front.length = 8 then some (front, rest)
  else if v4 then none
  else
    match rest with
    | ':' :: ':' :: rest =>
      let (back, _, rest) := groups true (7 - front.length) rest
      some (front ++ List.replicate (8 - front.length - back.length) 0 ++ back, rest)
    | _ => none

/-- Reads the end of an address: a colon and a port. -/
def port? (cs : List Char) : Option Nat := do
  let ':' :: cs := cs | none
  let (port, []) ← number? 10 65536 cs | none
  return port

/-- The address that a text writes down. -/
def parse? (text : String) : Option Address :=
  match text.toList with
  | '[' :: cs => do
    let (groups, cs) ← v6? cs
    let (scope, cs) ←
      match cs with
      | '%' :: cs => number? 10 UInt32.size cs
      | _ => some (0, cs)
    let ']' :: cs := cs | none
    return ⟨.v6 groups scope, ← port? cs⟩
  | cs => do
    let ([a, b, c, d], cs) ← v4? cs | none
    return ⟨.v4 a b c d, ← port? cs⟩

end Address

end HookRelay
