import HookRelay.Connection.Reader
import HookRelay.Connection.Writer

namespace HookRelay.Connection

/-- The coordinator ends: whatever it waited for, the connection stops. -/
def conclude (entries : List LogEntry) (c : Connection) (l : Link) : Connection × Link :=
  ({ c with coordinating := false, errors := c.errors.dropReceiver },
    l.stop.write (entries ++ [.connectionClosed c.id]))

/-- What a coordinator can do next. -/
inductive CoordinatorStep where
  | stop
  /-- Takes the first error, or finds that none can come any more. -/
  | hear
  deriving DecidableEq, Repr

def stepCoordinator (s : CoordinatorStep) (c : Connection) (l : Link) :
    Option (Connection × Link) :=
  if !c.coordinating then none
  else
    match s with
    | .stop => if l.stopped then some (conclude [] c l) else none
    | .hear =>
      match c.errors.take.1 with
      | .item e => some (conclude [.connectionFailed c.id e] c l)
      | .disconnected => some (conclude [] c l)
      | .empty => none

/-- What one of the three tasks can do next. -/
inductive Action where
  | writer (s : WriterStep)
  | reader (s : ReaderStep)
  | coordinator (s : CoordinatorStep)
  deriving DecidableEq, Repr

/-- One step of a connection at an instant, if it can be taken. -/
def step (limits : Limits) (now : Nat) (a : Action) (c : Connection) (l : Link) :
    Option (Connection × Link) :=
  match a with
  | .writer s => stepWriter limits now s c l
  | .reader s => stepReader limits now s c l
  | .coordinator s => stepCoordinator s c l

/-- What a connection does by itself, in the order in which it is tried. -/
def attempts (l : Link) : List Action :=
  [.writer .start, .writer .stop, .writer .take, .writer .beat,
    .writer (.put l.socket.window), .writer .expire,
    .reader .stop, .reader .read, .reader .expire, .reader .offer, .reader .resume,
    .coordinator .hear, .coordinator .stop]

/-- The next thing that a connection does by itself. -/
def advance (limits : Limits) (now : Nat) (s : Connection × Link) : Option (Connection × Link) :=
  (attempts s.2).findSome? fun a => step limits now a s.1 s.2

end HookRelay.Connection
