namespace HookRelay

/-- A span of time, in nanoseconds. -/
structure Duration where
  nanos : Nat
  deriving DecidableEq, Repr

namespace Duration

def zero : Duration := ⟨0⟩

def ofSecs (s : Nat) : Duration := ⟨s * 1000000000⟩

def ofMillis (ms : Nat) : Duration := ⟨ms * 1000000⟩

/-- A span given by its whole seconds and the nanoseconds past them. -/
def ofParts (secs subsec : Nat) : Duration := ⟨secs * 1000000000 + subsec⟩

def secs (d : Duration) : Nat := d.nanos / 1000000000

/-- The nanoseconds past the last whole second. -/
def subsecNanos (d : Duration) : Nat := d.nanos % 1000000000

/-- `rest / 10^places` as decimal digits after the point, without trailing
zeros: the empty list when `rest` is zero. -/
def fraction : Nat → Nat → List Char
  | 0, _ => []
  | places + 1, rest =>
    if rest = 0 then []
    else
      Nat.digitChar (rest / 10 ^ places % 10) :: fraction places (rest % 10 ^ places)

/-- A whole part and a fraction of `places` digits, followed by a unit. -/
def decimal (whole places rest : Nat) (unit : String) : String :=
  let point := if rest = 0 then "" else "."
  toString whole ++ point ++ String.ofList (fraction places rest) ++ unit

/-- A span in its largest fitting unit out of `s`, `ms`, `µs` and `ns`, exactly. -/
def text (d : Duration) : String :=
  if d.secs > 0 then decimal d.secs 9 d.subsecNanos "s"
  else if d.nanos ≥ 1000000 then decimal (d.nanos / 1000000) 6 (d.nanos % 1000000) "ms"
  else if d.nanos ≥ 1000 then decimal (d.nanos / 1000) 3 (d.nanos % 1000) "µs"
  else decimal d.nanos 0 0 "ns"

end Duration

end HookRelay
