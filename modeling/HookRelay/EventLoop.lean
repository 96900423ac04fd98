import HookRelay.Chat
import HookRelay.Intake
import HookRelay.Registry
import HookRelay.Settings
/-!
The event loop: the one task that owns the registry of clients and numbers the
events. Everything reaches it through bounded intakes, one each for events,
commands, requests to register a client, and messages of clients. Messages go out
to the chat session, which may take its time over each of them, fail, or make
the loop break down; the loop then starts again with all it had.
-/

namespace HookRelay

/-- What came of handing a line to the chat session. -/
inductive ChatOutcome where
  | sent
  | failed (cause : String)
  /-- It did not end in time. -/
  | late
  | brokeDown (f : Fault)
  deriving DecidableEq, Repr

/-- A line that was handed to the chat session, with what came of it. -/
structure Delivery where
  stanza : Stanza
  outcome : ChatOutcome
  deriving DecidableEq, Repr

/-- What the event loop is doing. -/
inductive LoopPhase where
  /-- Waits for whatever comes next. -/
  | ready
  /-- Has handed a line to the chat session at an instant. -/
  | forwarding (s : Stanza) (since : Nat)
  | exited
  deriving DecidableEq, Repr

/-- What a caller asks for. -/
inductive Ask where
  | event (e : Event)
  | command (c : Command)
  deriving DecidableEq

namespace Ask

def isEvent : Ask → Bool
  | .event _ => true
  | .command _ => false

end Ask

/-- The event loop with its intakes. Callers are known by tickets, and requests to
register by the number of their socket. -/
structure EventLoop where
  registry : Registry
  /-- The number that the next event gets. -/
  counter : Int64 := 0
  events : Intake Event
  /-- Whether events may still come. -/
  eventsOpen : Bool := true
  commands : Intake Command
  commandsOpen : Bool := true
  requests : Intake Nat
  requestsOpen : Bool := true
  outbox : Intake Message
  phase : LoopPhase := .ready
  room : String
  /-- How long the chat session may take over one line. -/
  chatLimit : Duration
  /-- Whether the loop has been told to stop. -/
  stopping : Bool := false
  /-- The calls that have begun and not yet come to an intake. -/
  begun : List (Nat × Ask) := []
  /-- The calls that have come to an end, with their errors. -/
  answers : List (Nat × Option CallError) := []
  /-- The requests that have been decided, with the client's position. -/
  replies : List (Nat × Option Nat) := []
  /-- The lines that have been handed to the chat session, oldest first. -/
  deliveries : List Delivery := []
  log : List LogEntry := []

namespace EventLoop

/-- A loop that has not begun to work, if all its intakes can be created. -/
def create (s : Settings) : Except CapacityError EventLoop := do
  let events ← Intake.create s.inboxQueue
  let commands ← Intake.create s.controlQueue
  let requests ← Intake.create s.registrationQueue
  let outbox ← Intake.create s.outboxQueue
  return { registry := { capacity := s.clientQueue }, events, commands, requests, outbox,
           room := s.chatRoom, chatLimit := s.chatWriteTimeout }

def write (entries : List LogEntry) (l : EventLoop) : EventLoop :=
  { l with log := l.log ++ entries }

/-- A call comes to its end. -/
def answer (ticket : Nat) (e : Option CallError) (l : EventLoop) : EventLoop :=
  { l with answers := l.answers ++ [(ticket, e)] }

/-- A request is decided. -/
def reply (socket : Nat) (client : Option Nat) (l : EventLoop) : EventLoop :=
  { l with replies := l.replies ++ [(socket, client)] }

/-- The loop after a breakdown. It starts again with all that it had. -/
def restart (f : Fault) (l : EventLoop) : EventLoop :=
  { l with phase := .ready }.write
    [.restarting "event loop" f.text, .loopStateKept l.counter l.registry.size]

/-- The loop ends: it stops its clients' connections, and its intakes go away with
all that is in them. -/
def exit (l : EventLoop) : EventLoop :=
  { l with
    phase := .exited
    registry := l.registry.shutDown
    events := l.events.dropReceiver
    commands := l.commands.dropReceiver
    requests := l.requests.dropReceiver
    outbox := l.outbox.dropReceiver
    replies := l.replies ++ l.requests.queue.items.map fun k => (k, none) }.write
    [.loopExited l.counter]

/-- Ends the loop once nothing can come from the chat side and no client can be
registered any more. -/
def checkOver (l : EventLoop) : EventLoop :=
  if l.eventsOpen || l.commandsOpen || l.requestsOpen then l else l.exit

/-- Numbers an event and offers it to all clients. -/
def dispatch (e : Event) (l : EventLoop) : EventLoop :=
  let (pruned, registry, log) := l.registry.broadcast (.ofEvent e l.counter)
  { l with counter := l.counter + 1, registry }.write
    (log ++ if pruned = 0 then [] else [LogEntry.clientsDropped pruned registry.size])

/-- Registers a client for a socket. A client whose queue cannot be created breaks
the loop down. -/
def register (socket : Nat) (l : EventLoop) : EventLoop :=
  match l.registry.register with
  | (.ok _, registry, log) =>
    { l with registry, outbox := l.outbox.addSender }.write log
      |>.reply socket (some l.registry.clients.length)
  | (.error e, registry, _) =>
    { l with registry }.reply socket none |>.restart (.reason e.text)

/-- What the log says about a line that was handed to the chat session. -/
def chatLog (limit : Duration) : ChatOutcome → List LogEntry
  | .failed cause => [.chatWriteFailed (.write cause)]
  | .late => [.chatWriteFailed (.deadline limit)]
  | .sent | .brokeDown _ => []

/-- The chat session is done with a line. -/
def finishChat (s : Stanza) (o : ChatOutcome) (l : EventLoop) : EventLoop :=
  let l := { l with deliveries := l.deliveries ++ [Delivery.mk s o], phase := .ready }
  match o with
  | .brokeDown f => l.restart f
  | _ => l.write (chatLog l.chatLimit o)

end EventLoop

end HookRelay
