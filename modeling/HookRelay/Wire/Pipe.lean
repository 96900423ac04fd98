import HookRelay.Wire.Frame
/-!
Writing frames into a pipe of bounded capacity whose other end acts on its own.
A write puts as much into the pipe as fits and waits for room for the rest, up
to its deadline. What it has put there stays there. The clock counts milliseconds,
as that of `Inbound` does.
-/

namespace HookRelay.Wire

/-- One step of the reading end of a pipe. -/
inductive PeerStep where
  /-- Takes `n` bytes, waiting for them. -/
  | read (n : Nat)
  | pause (ms : Nat)
  | close
  deriving DecidableEq, Repr

/-- A pipe with its two ends. -/
structure Pipe where
  /-- How many unread bytes the pipe holds at most. -/
  capacity : Nat
  /-- The clock, in milliseconds. -/
  now : Nat := 0
  /-- The bytes written and not read, oldest first. -/
  content : List UInt8 := []
  /-- Whether the reading end is gone. -/
  closed : Bool := false
  /-- What the reading end has taken. -/
  taken : List UInt8 := []
  /-- What the reading end will still do. -/
  script : List PeerStep

namespace Pipe

/-- What the reading end does at this instant, until it has to wait. -/
def act (content taken : List UInt8) :
    List PeerStep → List UInt8 × List UInt8 × Bool × List PeerStep
  | [] => (content, taken, false, [])
  | .read n :: script =>
    let got := content.take n
    if got.length = n then act (content.drop n) (taken ++ got) script
    else ([], taken ++ got, false, .read (n - got.length) :: script)
  | .pause 0 :: script => act content taken script
  | .pause ms :: script => (content, taken, false, .pause ms :: script)
  | .close :: script => ([], taken, true, script)

/-- The pipe after the reading end had its turn. -/
def runPeer (p : Pipe) : Pipe :=
  let (content, taken, closed, script) := act p.content p.taken p.script
  { p with content, taken, closed, script }

/-- How many bytes still fit. -/
def room (p : Pipe) : Nat :=
  p.capacity - p.content.length

/-- Whether a waiting write can move on. -/
def ready (p : Pipe) : Bool :=
  p.closed || p.room > 0

/-- Lets the clock run through the pauses of the reading end until a waiting
write can move on. A deadline, an instant of the clock, may come first. -/
def awaitPause (deadline : Nat) (p : Pipe) : List PeerStep → Pipe
  | .pause ms :: script =>
    if p.now + ms < deadline then
      let q := { p with now := p.now + ms, script }.runPeer
      if q.ready then q else awaitPause deadline { p with now := p.now + ms } script
    else { p with now := deadline, script := .pause (p.now + ms - deadline) :: script }
  | .read 0 :: script => awaitPause deadline p script
  | script => { p with now := deadline, script }

/-- Waits for the reading end to make room or to close, up to the deadline. -/
def await (deadline : Nat) (p : Pipe) : Pipe :=
  let q := p.runPeer
  if q.ready then q else awaitPause deadline q q.script

/-- Puts bytes into the pipe, as many at a time as fit. The deadline counts only
where the pipe is full. -/
def push (limit : Duration) (deadline : Nat) (p : Pipe) (left : List UInt8) :
    Except FrameError Unit × Pipe :=
  if left = [] then (.ok (), p)
  else if p.closed then (.error (.stream .brokenPipe), p)
  else if p.room > 0 then
    push limit deadline { p with content := p.content ++ left.take p.room } (left.drop p.room)
  else if p.now ≥ deadline then (.error (.deadline limit), p)
  else
    let q := p.await deadline
    if q.closed then (.error (.stream .brokenPipe), q)
    else if q.room > 0 then
      push limit deadline { q with content := q.content ++ left.take q.room } (left.drop q.room)
    else (.error (.deadline limit), q)
termination_by left.length
decreasing_by
  · have hleft := List.length_pos_iff.mpr ‹¬ left = []›
    rw [List.length_drop]
    omega
  · have hleft := List.length_pos_iff.mpr ‹¬ left = []›
    have hroom : (p.await deadline).room > 0 := by assumption
    rw [List.length_drop]
    omega

/-- Writes one frame within `ms` milliseconds. -/
def write (ms maxLen : Nat) (m : Message) (p : Pipe) : Except FrameError Unit × Pipe :=
  match encodeFrame m maxLen with
  | .error e => (.error e, p)
  | .ok frame => push (Duration.ofMillis ms) (p.now + ms) p frame

/-- Writes messages one after another and gives each answer with the instant it
came. -/
def writeMany (ms maxLen : Nat) :
    List Message → Pipe → List (Except FrameError Unit × Nat) × Pipe
  | [], p => ([], p)
  | m :: rest, p =>
    let (answer, p) := p.write ms maxLen m
    let (answers, q) := writeMany ms maxLen rest p
    ((answer, p.now) :: answers, q)

/-- The script once the writing end is gone: a read that finds too little ends
it, and a pause only passes time. -/
def drain (content taken : List UInt8) : List PeerStep → List UInt8
  | .read n :: script =>
    if n ≤ content.length then drain (content.drop n) (taken ++ content.take n) script
    else taken ++ content
  | .pause _ :: script => drain content taken script
  | .close :: _ => taken
  | [] => taken ++ content

/-- All that the reading end gets once the writing end is done. -/
def received (p : Pipe) : List UInt8 :=
  if p.closed then p.taken else drain p.content p.taken p.script

end Pipe

end HookRelay.Wire
