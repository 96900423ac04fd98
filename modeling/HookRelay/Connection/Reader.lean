import HookRelay.Connection
/-!
The reader of a connection. Every frame has to come within the time limit,
counted from when the reader starts to wait for it; no limit holds while a
message waits for room in the intake.
-/

namespace HookRelay.Connection

/-- The reader ends, which takes its message out of the line at the intake and
its sender away from it. -/
def endReader (e : Option ConnectionError) (c : Connection) (l : Link) : Connection × Link :=
  ({ c.post e with reader := .ended }, { l with intake := (l.intake.leave c.ticket).dropSender })

/-- The reader finds that nobody takes messages any more. -/
def loseIntake (c : Connection) (l : Link) : Connection × Link :=
  endReader none c (l.stop.write [.loopGone c.id])

/-- The reader waits for the next frame, which has its own deadline, exactly one time limit
from now. -/
def awaitFrame (limits : Limits) (now : Nat) (c : Connection) : Connection :=
  { c with reader := .reading (now + limits.timeout.nanos) }

/-- What a reader makes of the payload of a frame. -/
def readPayload (limits : Limits) (now : Nat) (payload : List UInt8) (c : Connection)
    (l : Link) : Connection × Link :=
  match Wire.decode payload with
  | .error e => endReader (some (.frame (.undecodable e))) c l
  | .ok m =>
    if m.isPong then (awaitFrame limits now c, l.write [.pongReceived c.id])
    else ({ c with reader := .offering m }, l)

/-- Takes bytes from the socket. -/
def hear (n : Nat) (l : Link) : Link :=
  { l with socket := { l.socket with inbound := l.socket.inbound.take n } }

/-- What a reader can do next. -/
inductive ReaderStep where
  | stop
  /-- Reads a frame, or finds that none will come. -/
  | read
  /-- Gives a frame up whose time has run out. -/
  | expire
  /-- Brings its message to the intake. -/
  | offer
  /-- Finds out what became of its message in the line. -/
  | resume
  | breakDown (f : Fault)
  deriving DecidableEq, Repr

/-- Reads the frame at the front of the client's bytes, or finds that there can
be none. -/
def readFrame (limits : Limits) (now : Nat) (c : Connection) (l : Link) :
    Option (Connection × Link) :=
  match Wire.scan limits.maxFrameLen l.socket.inbound.left with
  | .frame payload _ => some (readPayload limits now payload c (hear (payload.length + 2) l))
  | .oversized len _ =>
    some (endReader (some (.frame (.tooLong len limits.maxFrameLen))) c (hear 2 l))
  | .incomplete e =>
    if l.socket.inbound.ended then some (endReader (some (.frame (.stream e))) c l) else none

def stepReader (limits : Limits) (now : Nat) (s : ReaderStep) (c : Connection) (l : Link) :
    Option (Connection × Link) :=
  match s, c.reader with
  | .stop, .ended => none
  | .stop, _ => if l.stopped then some (endReader none c l) else none
  | .read, .reading _ => readFrame limits now c l
  | .expire, .reading due =>
    if now < due ∨ (readFrame limits now c l).isSome then none
    else some (endReader (some (.frame (.deadline limits.timeout))) c l)
  | .offer, .offering m =>
    match l.intake.bring c.ticket m with
    | (.accepted, intake) => some (awaitFrame limits now c, { l with intake })
    | (.waits, intake) => some ({ c with reader := .waiting }, { l with intake })
    | (.refused, _) => some (loseIntake c l)
  | .resume, .waiting =>
    if !l.intake.isWaiting c.ticket then some (awaitFrame limits now c, l)
    else if l.intake.queue.isListening then none
    else some (loseIntake c l)
  | .breakDown _, .ended => none
  | .breakDown f, _ =>
    some (endReader (some (.fault Half.reader.text f.text)) c
      (l.write [.connectionFault c.id .reader f.text]))
  | _, _ => none

end HookRelay.Connection
