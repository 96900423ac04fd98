import HookRelay.Connection.Step
import HookRelay.EventLoop.Step
import HookRelay.Relay

namespace HookRelay.Relay

/-- What the acceptor can do. -/
inductive AcceptorStep where
  /-- Binds its socket. -/
  | start
  /-- Sees that the relay has been told to stop. -/
  | stop
  /-- Takes the next socket and asks the loop to register a client. -/
  | accept
  /-- Learns whether a client has been registered. -/
  | learn
  deriving DecidableEq, Repr

/-- What can happen to a relay. -/
inductive Action where
  | loop (a : EventLoop.Action)
  | acceptor (s : AcceptorStep)
  | connection (i : Nat) (a : Connection.Action)
  | dial
  | send (socket : Nat) (bs : List UInt8)
  /-- A client will send nothing more. -/
  | halfClose (socket : Nat)
  | close (socket : Nat)
  /-- A client takes the bytes that have come to it. -/
  | receive (socket : Nat)
  | tick (d : Duration)
  deriving DecidableEq

def stepAcceptor (s : AcceptorStep) (r : Relay) : Option Relay :=
  match s, r.acceptor.phase with
  | .start, .starting =>
    match r.network.listen r.acceptor.listen with
    | .error e =>
      some ({ r with loop := r.loop.write [.listenFailed e.text] }.endAcceptor .disabled
        r.acceptor.accepted)
    | .ok a =>
      some { r with acceptor := { r.acceptor with state := .listening a, phase := .accepting } }
  | .stop, .accepting =>
    if r.loop.stopping then some (r.endAcceptor .closed r.acceptor.accepted) else none
  | .accept, .accepting =>
    let k := r.acceptor.accepted
    if k < r.sockets.length then
      (r.loop.step r.now (.request k)).map fun loop =>
        { r with
          loop, acceptor := { r.acceptor with phase := .registering k, accepted := k + 1 } }
    else none
  | .learn, .registering k =>
    match r.loop.replies.lookup k with
    | none => none
    | some none => some (r.endAcceptor .closed k)
    | some (some client) =>
      r.loop.registry.clients[client]?.map fun c => r.serve k client c.id
  | _, _ => none

def stepConnection (i : Nat) (a : Connection.Action) (r : Relay) : Option Relay := do
  let s ← r.connections[i]?
  let l ← r.link? s
  let (connection, l) ← Connection.step r.limits r.now a s.connection l
  return { r with connections := r.connections.set i { s with connection } }.putLink s l

/-- Whether there is somebody to connect to. -/
def isListening (r : Relay) : Bool :=
  match r.acceptor.state with
  | .listening _ => true
  | _ => false

/-- What only the acceptor does to the loop. -/
def isAcceptors : EventLoop.Action → Bool
  | .request _ | .dropRequestSender => true
  | _ => false

/-- One step, if it can be taken. -/
def step (a : Action) (r : Relay) : Option Relay :=
  match a with
  | .loop a =>
    if isAcceptors a then none else (r.loop.step r.now a).map fun loop => { r with loop }
  | .acceptor s => r.stepAcceptor s
  | .connection i a => r.stepConnection i a
  | .dial =>
    if r.isListening && r.network.reachable then
      some { r with sockets := r.sockets ++ [{ window := r.window }] }
    else none
  | .send k bs =>
    match r.sockets[k]? with
    | none => none
    | some s => if s.isSending then some (r.modifySocket k (Socket.send bs)) else none
  | .halfClose k => some (r.modifySocket k Socket.halfClose)
  | .close k => some (r.modifySocket k Socket.close)
  | .receive k => some (r.modifySocket k Socket.receive)
  | .tick d => some { r with now := r.now + d.nanos }

/-- The relay after all these steps, if they can be taken one after another. -/
def run : List Action → Relay → Option Relay
  | [], r => some r
  | a :: rest, r => (r.step a).bind (run rest)

end HookRelay.Relay
