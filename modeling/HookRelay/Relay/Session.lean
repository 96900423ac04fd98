import HookRelay.Relay.Settle
import HookRelay.Wire.Received
/-!
A relay as its owner sees it: through a handle, through a sender of events that
outlives the handle, and through the clients. After each step of a session
everything runs until nobody can move.
-/

namespace HookRelay.Relay

namespace Session

/-- What can be done to a relay. Clients are named by the order in which they
connected. -/
inductive Step where
  | connect
  /-- Pushes an event, through the handle or through the kept sender. -/
  | event (e : Event) (kept : Bool)
  | command (c : Command)
  | send (client : Nat) (bs : List UInt8)
  | halfClose (client : Nat)
  | close (client : Nat)
  | advance (ms : Nat)
  | stop
  /-- Asks for the address at which the relay listens. -/
  | address
  | dropHandle
  /-- Stops the relay and waits until its tasks have ended. -/
  | shutDown
  deriving DecidableEq

/-- What is answered to it. -/
inductive Reply where
  | none
  | connected (client : Nat)
  /-- Nobody listens any more, or there is no way there. -/
  | refused
  /-- Nobody has ever listened. -/
  | noListener
  | accepted
  | failed (e : CallError)
  /-- It has not come to an end yet. -/
  | pending
  /-- It would need the handle. -/
  | gone
  | listening (h : Host)
  | notListening
  /-- All tasks have ended. -/
  | joined
  /-- The client cannot send any more. -/
  | closed
  /-- There is no client that could send. -/
  | noClient
  /-- There is no client at this position. -/
  | noPosition (client clients : Nat)
  deriving DecidableEq, Repr

end Session

structure Session where
  relay : Relay
  chat : ChatSession
  hasHandle : Bool := true
  /-- Whether the relay ever listened. -/
  listened : Bool
  /-- How many steps there have been. Each is the ticket of its call. -/
  steps : Nat := 0
  /-- The calls that have not come to an end, by their steps. -/
  calls : List Nat := []
  /-- The step that waits for the tasks to end. -/
  joining : Option Nat := none
  /-- Per client, how many bytes of whole frames it has been told of. -/
  told : List Nat := []

namespace Session

/-- What a step leads to, as far as it can be seen from outside. -/
structure Report where
  reply : Reply
  /-- The earlier steps that have come to an end now. -/
  done : List (Nat × Reply)
  /-- What each client received. -/
  received : List (List Message)
  /-- The clients that saw the relay close their socket. -/
  closed : List Nat
  /-- The lines that the chat session took. -/
  chat : List Stanza
  /-- The acceptor's state, if there is a handle to ask. -/
  state : Option ListenerState
  log : List LogEntry

/-- Whether the relay's two tasks have ended. -/
def isOver (s : Session) : Bool :=
  s.relay.loop.phase = .exited && s.relay.acceptor.phase = .ended

/-- The relay takes these steps, as far as they can be taken. -/
def act (as : List Action) (s : Session) : Session :=
  { s with relay := as.foldl (fun r a => (r.step a).getD r) s.relay }

/-- A call begins and comes to its intake. -/
def call (a : Ask) (s : Session) : Session :=
  { s.act [.loop (.call s.steps a), .loop (.bring s.steps)] with calls := s.calls ++ [s.steps] }

/-- The handle goes away, and with it the relay is told to stop. -/
def release (s : Session) : Session :=
  { s.act [.loop .stop, .loop .dropEventSender, .loop .dropCommandSender] with
    hasHandle := false }

/-- What a step on a client does, if there is such a client. -/
def onClient (client : Nat) (a : Action) (s : Session) : Reply × Session :=
  if client < s.relay.sockets.length then (.none, s.act [a])
  else (.noPosition client s.relay.sockets.length, s)

/-- What a step does before anybody else moves. The reply to a call is found out
later. -/
def apply (s : Session) : Step → Reply × Session
  | .connect =>
    if !s.listened then (.noListener, s)
    else
      match s.relay.step .dial with
      | none => (.refused, s)
      | some relay => (.connected s.relay.sockets.length, { s with relay, told := s.told ++ [0] })
  | .event e kept => if kept || s.hasHandle then (.pending, s.call (.event e)) else (.gone, s)
  | .command c => if s.hasHandle then (.pending, s.call (.command c)) else (.gone, s)
  | .send client bs =>
    match s.relay.sockets[client]? with
    | none => (.noClient, s)
    | some socket =>
      if !socket.isSending || socket.outbound.isOver then (.closed, s)
      else (.none, s.act [.send client bs])
  | .halfClose client => s.onClient client (.halfClose client)
  | .close client => s.onClient client (.close client)
  | .advance ms => (.none, { s with relay := s.relay.pass s.chat ms })
  | .stop => if s.hasHandle then (.none, s.act [.loop .stop]) else (.gone, s)
  | .address =>
    if !s.hasHandle then (.gone, s)
    else
      match s.relay.acceptor.state with
      | .listening a => (.listening a.host, s)
      | _ => (.notListening, s)
  | .dropHandle => (.none, if s.hasHandle then s.release else s)
  | .shutDown =>
    if s.hasHandle then (.pending, { s.release with joining := some s.steps }) else (.gone, s)

/-- What has come of a step that may take its time. -/
def outcome? (s : Session) (step : Nat) : Option Reply :=
  if s.joining = some step then if s.isOver then some .joined else none
  else
    (s.relay.loop.answers.lookup step).map fun
      | none => .accepted
      | some e => .failed e

/-- The clients that see their sockets closed by the relay. -/
def hungUp (r : Relay) : List Nat :=
  (List.range r.sockets.length).filter fun k =>
    match r.sockets[k]? with
    | none => false
    | some s => !s.closed && s.outbound.isOver

/-- What can be seen of a session after a step, given the relay before it. -/
def report (reply : Reply) (before : Relay) (s : Session) : Report × Session :=
  let waiting := s.calls ++ s.joining.toList
  let ended := waiting.filterMap fun step => (s.outcome? step).map (step, ·)
  let reply := match reply with
    | .pending => (ended.lookup s.steps).getD .pending
    | reply => reply
  let heard := s.relay.sockets.zipWith (fun socket n => (n, socket.outbound.heard.drop n)) s.told
  let received := heard.map fun (n, bs) =>
    let (ms, m) := Wire.received bs
    (ms, n + m)
  let taken (r : Relay) : List Stanza :=
    (r.loop.deliveries.filter (·.outcome = .sent)).map (·.stanza)
  ({ reply
     done := ended.filter (·.1 ≠ s.steps)
     received := received.map (·.1)
     closed := (hungUp s.relay).filter fun k => !(hungUp before).contains k
     chat := (taken s.relay).drop (taken before).length
     state := if s.hasHandle then some s.relay.acceptor.state else none
     log := s.relay.loop.log.drop before.loop.log.length },
    { s with
      steps := s.steps + 1
      calls := s.calls.filter fun step => (ended.lookup step).isNone
      joining := s.joining.filter fun step => (ended.lookup step).isNone
      told := received.map (·.2) })

/-- Everybody runs until nobody can move. -/
def settle (s : Session) : Session := { s with relay := s.relay.settle s.chat }

/-- A session with a relay that has been started, if all its intakes can be
created. -/
def start (n : Network) (settings : Settings) (chat : ChatSession) :
    Except CapacityError (Report × Session) := do
  let created ← Relay.create n settings
  let s : Session := { relay := created, chat, listened := false }
  let s := (s.act [.loop .addEventSender]).settle
  return { s with listened := s.relay.isListening }.report .none created

def step (a : Step) (s : Session) : Report × Session :=
  let (reply, s') := s.apply a
  s'.settle.report reply s.relay

end Session

end HookRelay.Relay
