import HookRelay.Connection
import HookRelay.EventLoop
import HookRelay.Network
/-!
The relay as a whole: the event loop, the acceptor that lets clients in, and one
connection for each client it has let in. The acceptor takes the sockets of
clients in the order in which they were dialed, asks the event loop to register a
client for each, one after another, and starts the connection once it has the
loop's answer.
-/

namespace HookRelay

/-- What others can see of the acceptor. -/
inductive ListenerState where
  /-- It is not bound yet. -/
  | pending
  | listening (a : Address)
  /-- It could not be bound. -/
  | disabled
  | closed
  deriving DecidableEq, Repr

/-- What the acceptor is doing. -/
inductive AcceptorPhase where
  | starting
  /-- Waits for the next socket. -/
  | accepting
  /-- Waits for the loop to register a client for a socket. -/
  | registering (socket : Nat)
  | ended
  deriving DecidableEq, Repr

/-- The task that lets clients in. -/
structure Acceptor where
  /-- The address to listen at, as it was given. -/
  listen : String
  state : ListenerState := .pending
  phase : AcceptorPhase := .starting
  /-- How many sockets it has taken. -/
  accepted : Nat := 0

/-- A connection that is served, with the positions of its socket and its client. -/
structure Served where
  socket : Nat
  client : Nat
  connection : Connection

structure Relay where
  /-- The clock, in nanoseconds. -/
  now : Nat := 0
  network : Network
  limits : Limits
  /-- How many bytes may be on their way to a client. -/
  window : Nat
  loop : EventLoop
  acceptor : Acceptor
  /-- The sockets that were dialed, oldest first. -/
  sockets : List Socket := []
  connections : List Served := []

namespace Relay

/-- How many bytes may be on their way to a client that does not take them. -/
def defaultWindow : Nat := 4194304

/-- A relay that has not begun to work, if all its intakes can be created. -/
def create (n : Network) (s : Settings) : Except CapacityError Relay := do
  let loop ← EventLoop.create s
  return { network := n, limits := s.limits, window := defaultWindow, loop,
           acceptor := { listen := s.listen } }

def modifySocket (k : Nat) (f : Socket → Socket) (r : Relay) : Relay :=
  { r with sockets := r.sockets.modify k f }

/-- The acceptor ends. It hangs up on every socket that it does not hand on, from
the `first` one. -/
def endAcceptor (state : ListenerState) (first : Nat) (r : Relay) : Relay :=
  { r with
    acceptor := { r.acceptor with state, phase := .ended }
    loop := { r.loop with requests := r.loop.requests.dropSender }.write [.listenerExited 1]
    sockets := r.sockets.take first ++ (r.sockets.drop first).map Socket.hangUp }

/-- Starts the connection of a client on a socket. -/
def serve (socket client : Nat) (id : UInt64) (r : Relay) : Relay :=
  let connection := Connection.start r.limits id r.connections.length r.now
  { r with
    acceptor := { r.acceptor with phase := .accepting }
    connections := r.connections ++ [{ socket, client, connection }] }

/-- What a connection shares with the rest of the relay. -/
def link? (s : Served) (r : Relay) : Option Link := do
  let socket ← r.sockets[s.socket]?
  let client ← r.loop.registry.clients[s.client]?
  return { socket, inbox := client.inbox, stopped := client.stopped, intake := r.loop.outbox,
           log := r.loop.log }

/-- The relay after a connection has changed what it shares with it. -/
def putLink (s : Served) (l : Link) (r : Relay) : Relay :=
  { r with
    sockets := r.sockets.set s.socket l.socket
    loop := { r.loop with
      registry := r.loop.registry.modify s.client fun c =>
        { c with inbox := l.inbox, stopped := l.stopped }
      outbox := l.intake
      log := l.log } }

end Relay

end HookRelay
