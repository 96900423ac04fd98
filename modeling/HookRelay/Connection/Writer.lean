import HookRelay.Connection
/-!
The writer of a connection. It has one frame in hand at a time: a frame is
written to its end before the next message, heartbeat or stop is looked at.
-/

namespace HookRelay.Connection

/-- The writer ends, which closes the client's queue and this side of its
socket. -/
def endWriter (e : Option ConnectionError) (c : Connection) (l : Link) : Connection × Link :=
  ({ c.post e with writer := .ended },
    { l with inbox := l.inbox.dropReceiver, socket := l.socket.hangUp })

/-- The writer breaks down. -/
def breakWriter (f : Fault) (c : Connection) (l : Link) : Connection × Link :=
  endWriter (some (.fault Half.writer.text f.text)) c
    (l.write [.connectionFault c.id .writer f.text])

/-- The first instant that the clock does not reach: it counts seconds in 63
bits. -/
def clockEnd : Nat := Nat.pow 2 63 * 1000000000

/-- Sets the first heartbeat. It has to be an instant of the clock, and later
than now. -/
def startWriter (limits : Limits) (now : Nat) (c : Connection) (l : Link) : Connection × Link :=
  let beat := now + limits.heartbeat.nanos
  if beat ≥ clockEnd then breakWriter (.reason "overflow when adding duration to instant") c l
  else if beat = now then breakWriter (.reason "`period` must be non-zero.") c l
  else ({ c with writer := .idle beat }, l)

/-- How late a heartbeat may be before the next one is counted from now instead
of from the instant at which it was due. -/
def tolerance : Nat := 5000000

/-- The heartbeat after the one that was due at `beat`. -/
def nextBeat (limits : Limits) (now beat : Nat) : Nat :=
  (if now > beat + tolerance then now else beat) + limits.heartbeat.nanos

/-- Starts to write the frame of a message. -/
def beginFrame (limits : Limits) (now beat : Nat) (m : Message) (c : Connection) (l : Link) :
    Connection × Link :=
  match Wire.encodeFrame m limits.maxFrameLen with
  | .error e => endWriter (some (.frame e)) c l
  | .ok frame => ({ c with writer := .writing beat frame (now + limits.timeout.nanos) }, l)

/-- Puts the next bytes of a frame on the socket. -/
def putBytes (n beat due : Nat) (left : List UInt8) (c : Connection) (l : Link) :
    Connection × Link :=
  ({ c with
      writer := if (left.drop n).isEmpty then .idle beat else .writing beat (left.drop n) due },
    { l with socket := { l.socket with outbound := l.socket.outbound.put (left.take n) } })

/-- What a writer can do next. -/
inductive WriterStep where
  | start
  | stop
  /-- Takes a message from the queue, or finds the queue closed. -/
  | take
  | beat
  /-- Puts up to `n` bytes on the socket, or finds the client gone. -/
  | put (n : Nat)
  /-- Gives a frame up whose time has run out. -/
  | expire
  | breakDown (f : Fault)
  deriving DecidableEq, Repr

def stepWriter (limits : Limits) (now : Nat) (s : WriterStep) (c : Connection) (l : Link) :
    Option (Connection × Link) :=
  match s, c.writer with
  | .start, .starting => some (startWriter limits now c l)
  | .stop, .idle _ => if l.stopped then some (endWriter none c l) else none
  | .take, .idle beat =>
    match l.inbox.take with
    | (.item m, inbox) => some (beginFrame limits now beat m c { l with inbox })
    | (.disconnected, _) => some (endWriter none c l.stop)
    | (.empty, _) => none
  | .beat, .idle beat =>
    if now < beat then none
    else some (beginFrame limits now (nextBeat limits now beat) .ping c l)
  | .put n, .writing beat left due =>
    if l.socket.closed then some (endWriter (some (.frame (.stream .brokenPipe))) c l)
    else if min n l.socket.room = 0 then none
    else some (putBytes (min n l.socket.room) beat due left c l)
  | .expire, .writing _ _ due =>
    if now < due then none else some (endWriter (some (.frame (.deadline limits.timeout))) c l)
  | .breakDown _, .ended => none
  | .breakDown f, _ => some (breakWriter f c l)
  | _, _ => none

end HookRelay.Connection
