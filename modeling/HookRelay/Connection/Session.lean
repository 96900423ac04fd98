import HookRelay.Connection.Step
import HookRelay.Network
import HookRelay.Schedule
import HookRelay.Wire.Received
/-!
One connection with everything around it: the client at the other end of the
socket, the sender of the client's queue and the receiver of the intake. After
each step of a session the tasks run until none of them can move.
-/

namespace HookRelay.Connection

namespace Session

/-- What can be done to a connection from outside. -/
inductive Step where
  /-- Offers a message to the client's queue, several times. -/
  | queue (m : Message) (times : Nat)
  /-- Drops the one sender of the client's queue. -/
  | closeQueue
  | send (bs : List UInt8)
  /-- Takes messages from the intake, up to a number. -/
  | take (n : Nat)
  /-- Drops the receiver of the intake. -/
  | dropIntake
  | stop
  /-- The client will send nothing more. -/
  | halfClose
  | close
  /-- The client stops reading. -/
  | pause
  /-- The client reads again. -/
  | resume
  /-- Lets milliseconds pass. -/
  | advance (ms : Nat)
  deriving DecidableEq

/-- What is answered to it. -/
inductive Reply where
  | none
  | offered (os : List Offer)
  | taken (ts : List (Taken Message))
  /-- The end that this would need has been dropped. -/
  | gone
  /-- The client cannot send any more. -/
  | closed
  deriving DecidableEq

end Session

structure Session where
  limits : Limits
  /-- The clock, in nanoseconds. -/
  now : Nat := 0
  conn : Connection
  link : Link
  /-- Whether the sender of the client's queue is still there. -/
  hasSender : Bool := true
  /-- Whether the receiver of the intake is still there. -/
  hasReceiver : Bool := true
  /-- Whether the client does not read for the time being. -/
  paused : Bool := false
  /-- How many bytes of whole frames the client has been told of. -/
  told : Nat := 0

namespace Session

/-- What a step leads to, as far as it can be seen from outside. -/
structure Report where
  reply : Reply
  received : List Message
  /-- Whether the client sees its socket closed. -/
  closed : Bool
  stopped : Bool
  log : List LogEntry

/-- How many steps the tasks can take at most before they wait for somebody. -/
def work (s : Session) : Nat :=
  32 + 4 * (s.link.inbox.items.length + s.link.socket.inbound.left.length)

/-- The tasks run until they wait for somebody. -/
def runTasks (s : Session) : Option Session :=
  (Schedule.exhaust (advance s.limits s.now) s.work (s.conn, s.link)).map fun (conn, link) =>
    { s with conn, link }

/-- The first in line at the intake is let in. -/
def runIntake (s : Session) : Option Session :=
  s.link.intake.letIn.map fun (_, intake) => { s with link := { s.link with intake } }

/-- The client reads. -/
def runClient (s : Session) : Option Session :=
  if s.paused || s.link.socket.outbound.left.isEmpty then none
  else some { s with link := { s.link with socket := s.link.socket.receive } }

/-- Everybody runs until nobody can move. -/
def settle (s : Session) : Session :=
  (Schedule.exhaust (Schedule.inTurn [runIntake, runTasks, runClient])
    (s.work + s.link.inbox.items.length * s.limits.maxFrameLen) s).getD s

/-- Whether the client sees its socket closed. -/
def isClosed (s : Session) : Bool :=
  s.link.socket.closed || (!s.paused && s.link.socket.outbound.isOver)

/-- Offers a message to the client's queue, several times. -/
def enqueue (m : Message) : Nat → Mailbox Message → List Offer × Mailbox Message
  | 0, inbox => ([], inbox)
  | n + 1, inbox =>
    let (o, inbox) := inbox.offer m
    let (os, inbox) := enqueue m n inbox
    (o :: os, inbox)

/-- Takes up to `n` messages from the intake. -/
def takeMany : Nat → Intake Message → List (Taken Message) × Intake Message
  | 0, intake => ([], intake)
  | n + 1, intake =>
    let (t, intake) := intake.take
    let (ts, intake) := takeMany n intake
    (t :: ts, intake)

/-- Time passes, and everybody runs after each jump of the clock. -/
def pass (ms : Nat) (s : Session) : Session :=
  (Schedule.jumps ms).foldl (fun s ms => { s with now := s.now + ms * 1000000 }.settle) s

/-- What a step does before anybody else moves. -/
def apply (s : Session) : Step → Reply × Session
  | .queue m times =>
    if s.hasSender then
      let (os, inbox) := enqueue m times s.link.inbox
      (.offered os, { s with link := { s.link with inbox } })
    else (.gone, s)
  | .closeQueue =>
    if s.hasSender then
      (.none,
        { s with hasSender := false, link := { s.link with inbox := s.link.inbox.dropSender } })
    else (.none, s)
  | .send bs =>
    if s.isClosed || !s.link.socket.isSending then (.closed, s)
    else (.none, { s with link := { s.link with socket := s.link.socket.send bs } })
  | .take n =>
    if s.hasReceiver then
      let (ts, intake) := takeMany n s.link.intake
      (.taken ts, { s with link := { s.link with intake } })
    else (.gone, s)
  | .dropIntake =>
    (.none,
      { s with
        hasReceiver := false, link := { s.link with intake := s.link.intake.dropReceiver } })
  | .stop => (.none, { s with link := s.link.stop })
  | .halfClose => (.none, { s with link := { s.link with socket := s.link.socket.halfClose } })
  | .close => (.none, { s with link := { s.link with socket := s.link.socket.close } })
  | .pause => (.none, { s with paused := true })
  | .resume => (.none, { s with paused := false })
  | .advance ms => (.none, s.pass ms)

/-- What can be seen of a session after a step, given the log before it. -/
def report (reply : Reply) (before : List LogEntry) (s : Session) : Report × Session :=
  let heard := if s.paused then [] else s.link.socket.outbound.heard.drop s.told
  let (received, n) := Wire.received heard
  ({ reply, received, closed := s.isClosed, stopped := s.link.stopped,
     log := s.link.log.drop before.length },
    { s with told := s.told + n })

/-- Why there is no session. -/
inductive StartError where
  | network (e : StreamError)
  | queue (e : CapacityError)
  deriving DecidableEq, Repr

/-- A session with a client, if the network lets it connect. The queues hold
`queue` messages for the client and `outbox` messages from it; `window` bytes may
be on their way to the client. -/
def start (n : Network) (limits : Limits) (id : UInt64) (window queue outbox : Nat) :
    Except StartError (Report × Session) := do
  n.dial.mapError .network
  let inbox ← (Mailbox.create queue).mapError .queue
  let intake ← (Intake.create outbox).mapError .queue
  let s : Session :=
    { limits, conn := Connection.start limits id 0 0
      link := { socket := { window }, inbox, intake } }
  return s.settle.report .none []

def step (a : Step) (s : Session) : Report × Session :=
  let (reply, s') := s.apply a
  s'.settle.report reply s.link.log

end Session

end HookRelay.Connection
