import HookRelay.Wire.Frame
/-!
Reading frames from a stream whose bytes arrive over time. Each read has its own
deadline, counted from its start; it looks at the bytes first and at the
clock after that.

The clock of a stream counts milliseconds, where a connection counts nanoseconds:
timers go off at whole milliseconds, and nothing but a timer ends a pause or a read
that waits, so no instant in between matters here.
-/

namespace HookRelay.Wire

/-- One step of the writing side of a stream. -/
inductive Arrival where
  | bytes (bs : List UInt8)
  | pause (ms : Nat)
  | close
  deriving DecidableEq, Repr

/-- A stream as its reader meets it. -/
structure Inbound where
  /-- The clock, in milliseconds. -/
  now : Nat := 0
  /-- The bytes that have arrived and are not read yet. -/
  buffered : List UInt8 := []
  /-- Whether the writing side has closed. -/
  closed : Bool := false
  /-- What the writing side will still do. -/
  coming : List Arrival

namespace Inbound

/-- What the writing side does at this instant, up to its next pause. -/
def deliver : List Arrival → List UInt8 → Bool → List UInt8 × Bool × List Arrival
  | .bytes bs :: coming, buffered, closed => deliver coming (buffered ++ bs) closed
  | .close :: coming, buffered, _ => deliver coming buffered true
  | .pause 0 :: coming, buffered, closed => deliver coming buffered closed
  | coming, buffered, closed => (buffered, closed, coming)

/-- The stream after the writing side had its turn. -/
def settle (s : Inbound) : Inbound :=
  let (buffered, closed, coming) := deliver s.coming s.buffered s.closed
  { s with buffered, closed, coming }

/-- What a read can answer from the bytes at hand. -/
def poll (maxLen : Nat) (s : Inbound) : Option (Except FrameError Message × Inbound) :=
  match scan maxLen s.buffered with
  | .frame payload rest =>
    some ((decode payload).mapError .undecodable, { s with buffered := rest })
  | .oversized len rest => some (.error (.tooLong len maxLen), { s with buffered := rest })
  | .incomplete e =>
    if s.closed then some (.error (.stream e), { s with buffered := [] }) else none

/-- Lets the clock run through the pauses of the writing side until the read can
answer or its deadline, an instant of the clock, has come. -/
def await (limit : Duration) (deadline maxLen : Nat) (now : Nat) (buffered : List UInt8)
    (closed : Bool) : List Arrival → Except FrameError Message × Inbound
  | .pause ms :: coming =>
    if now + ms < deadline then
      let s := settle ⟨now + ms, buffered, closed, coming⟩
      match poll maxLen s with
      | some answer => answer
      | none => await limit deadline maxLen (now + ms) buffered closed coming
    else
      (.error (.deadline limit),
        ⟨deadline, buffered, closed, .pause (now + ms - deadline) :: coming⟩)
  | .bytes bs :: coming => await limit deadline maxLen now (buffered ++ bs) closed coming
  | .close :: coming => await limit deadline maxLen now buffered true coming
  | [] => (.error (.deadline limit), ⟨deadline, buffered, closed, []⟩)

/-- Reads one frame within `ms` milliseconds. The writing side has its turn only
when the read has to wait. -/
def read (ms maxLen : Nat) (s : Inbound) : Except FrameError Message × Inbound :=
  match poll maxLen s with
  | some answer => answer
  | none =>
    let limit := Duration.ofMillis ms
    if ms = 0 then (.error (.deadline limit), s)
    else
      let s := settle s
      match poll maxLen s with
      | some answer => answer
      | none => await limit (s.now + ms) maxLen s.now s.buffered s.closed s.coming

/-- Whether reading goes on after this answer: the stream is still in step with
the frames. -/
def goesOn : Except FrameError Message → Bool
  | .error (.stream _) | .error (.deadline _) => false
  | _ => true

/-- Reads up to `n` frames in a row, each within `ms` milliseconds of its start,
and gives each answer with the instant it came. -/
def readMany (ms maxLen : Nat) : Nat → Inbound → List (Except FrameError Message × Nat)
  | 0, _ => []
  | n + 1, s =>
    let (answer, s) := s.read ms maxLen
    (answer, s.now) :: if goesOn answer then readMany ms maxLen n s else []

end Inbound

end HookRelay.Wire
