import HookRelay.Intake
import HookRelay.Log
import HookRelay.Settings
import HookRelay.Socket
/-!
The connection to one client: a writer, a reader and a coordinator, which share a
stop signal. The writer sends the client's queued messages and heartbeats; the
reader passes the client's messages on to the shared intake. Whichever of the
two fails first posts its error to the coordinator, which then stops the other.

The tasks move one step at a time, each at an instant of the clock, which counts
nanoseconds. The deadline of a frame is an exact instant here, and it may lie past the
end of the clock: that timers fire at whole milliseconds, and that one set for an instant
which the clock does not reach goes off after some thirty years, is left out.
-/

namespace HookRelay

structure Limits where
  /-- The time between two heartbeats. -/
  heartbeat : Duration
  /-- The time within which a frame has to be read or written. -/
  timeout : Duration
  maxFrameLen : Nat
  deriving DecidableEq, Repr

def Settings.limits (s : Settings) : Limits :=
  ⟨s.heartbeatInterval, s.heartbeatTimeout, s.maxFrameLen⟩

/-- What a writer is doing. `beat` is the instant of its next heartbeat. -/
inductive Writer where
  | starting
  /-- Waits for a message, the stop signal or the next heartbeat. -/
  | idle (beat : Nat)
  /-- Has these bytes of a frame left to write until an instant. -/
  | writing (beat : Nat) (left : List UInt8) (due : Nat)
  | ended
  deriving DecidableEq, Repr

/-- What a reader is doing. -/
inductive Reader where
  /-- Waits for a whole frame until an instant. -/
  | reading (due : Nat)
  /-- Brings a message to the intake. -/
  | offering (m : Message)
  /-- Stands in line at the intake. -/
  | waiting
  | ended
  deriving DecidableEq

/-- The tasks of a connection. -/
structure Connection where
  /-- The client's id in the log. -/
  id : UInt64
  /-- What the reader shows when it stands in line at the intake. -/
  ticket : Nat
  writer : Writer := .starting
  reader : Reader
  /-- Whether the coordinator still waits. -/
  coordinating : Bool := true
  /-- The errors posted to the coordinator, one slot for each half. -/
  errors : Mailbox ConnectionError := { capacity := 2, senders := 2 }

/-- What a connection works on and shares with others. -/
structure Link where
  socket : Socket
  /-- The messages queued for the client. -/
  inbox : Mailbox Message
  stopped : Bool := false
  /-- Where the messages of all clients go. -/
  intake : Intake Message
  log : List LogEntry := []

namespace Link

def write (entries : List LogEntry) (l : Link) : Link := { l with log := l.log ++ entries }

def stop (l : Link) : Link := { l with stopped := true }

end Link

namespace Connection

/-- A connection whose tasks start at an instant. -/
def start (limits : Limits) (id : UInt64) (ticket now : Nat) : Connection :=
  { id, ticket, reader := .reading (now + limits.timeout.nanos) }

/-- Whether all three tasks have ended. -/
def isOver (c : Connection) : Bool :=
  c.writer = .ended && c.reader = .ended && !c.coordinating

/-- Ends one half: its error is posted, if there is one and the slot is free. -/
def post (e : Option ConnectionError) (c : Connection) : Connection :=
  { c with errors := (match e with
      | none => c.errors
      | some e => (c.errors.offer e).2).dropSender }

end Connection

end HookRelay
