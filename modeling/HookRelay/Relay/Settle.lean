import HookRelay.Relay.Step
import HookRelay.Schedule
/-!
What a relay does when it is left to itself with a given chat session: the order in
which its tasks get their turns. A round gives each of them all the turns that it
can use; rounds follow one another until nobody can move.
-/

namespace HookRelay

/-- How the chat session deals with a line: after how long, and with what outcome.
A line without an outcome is never done with. -/
structure ChatResponse where
  pause : Duration := .zero
  outcome : Option ChatOutcome := some .sent
  deriving DecidableEq, Repr

/-- A chat session, by how it deals with each line. -/
abbrev ChatSession := Stanza → ChatResponse

namespace Relay

/-- What the chat session does with the line that it has, once it is time. Its own
answer comes before the end of its time. -/
def chatAttempts (chat : ChatSession) (r : Relay) : List Action :=
  match r.loop.phase with
  | .forwarding s since =>
    let response := chat s
    match response.outcome with
    | some o =>
      if r.now < since + response.pause.nanos then [.loop (.chatEnds .late)]
      else [.loop (.chatEnds o)]
    | none => [.loop (.chatEnds .late)]
  | _ => []

/-- The first of these steps that can be taken. -/
def firstOf (attempts : List Action) (r : Relay) : Option Relay :=
  attempts.findSome? fun a => r.step a

/-- The event loop's turn. It takes events first, then commands, requests and
messages. -/
def loopTurn (chat : ChatSession) (r : Relay) : Option Relay :=
  r.firstOf (r.chatAttempts chat ++
    [.loop .quit, .loop .takeEvent, .loop .takeCommand, .loop .takeRequest, .loop .takeMessage])

/-- The turn of those who stand in line at the intakes. -/
def lineTurn (r : Relay) : Option Relay :=
  r.firstOf
    [.loop .serveEvent, .loop .serveCommand, .loop .serveRequest, .loop .serveMessage]

/-- The turn of one connection. -/
def connectionTurn (i : Nat) (r : Relay) : Option Relay := do
  let s ← r.connections[i]?
  let l ← r.link? s
  r.firstOf ((Connection.attempts l).map (.connection i))

/-- The turn of the client at a socket: it takes what has come. -/
def clientTurn (k : Nat) (r : Relay) : Option Relay := do
  let s ← r.sockets[k]?
  if s.outbound.left.isEmpty then none else r.step (.receive k)

def acceptorTurn (r : Relay) : Option Relay :=
  r.firstOf [.acceptor .start, .acceptor .stop, .acceptor .accept, .acceptor .learn]

/-- The items in an intake and in the line in front of it. -/
def load {α : Type} (i : Intake α) : Nat := i.queue.items.length + i.line.length

/-- More turns than anybody can use without waiting for somebody else. -/
def work (r : Relay) : Nat :=
  32 + 4 * (load r.loop.events + load r.loop.commands + load r.loop.requests +
    load r.loop.outbox + r.sockets.length +
    r.sockets.foldl (fun n s => n + s.inbound.left.length) 0 +
    r.loop.registry.clients.foldl (fun n c => n + c.inbox.items.length) 0)

/-- A round: everybody gets all the turns that it can use, the loop first and the
acceptor last. -/
def round (chat : ChatSession) (r : Relay) : Option Relay :=
  let all (turn : Relay → Option Relay) : Relay → Option Relay :=
    fun r => Schedule.exhaust turn r.work r
  Schedule.inTurn
    ([all (loopTurn chat), all lineTurn] ++
      (List.range r.connections.length).map (fun i => all (connectionTurn i)) ++
      (List.range r.sockets.length).map clientTurn ++ [all acceptorTurn]) r

/-- Rounds until nobody can move. -/
def settle (chat : ChatSession) (r : Relay) : Relay :=
  (Schedule.exhaust (round chat) (r.work * (Wire.maxPayload + 2)) r).getD r

/-- Time passes, and everybody runs after each jump of the clock. -/
def pass (chat : ChatSession) (ms : Nat) (r : Relay) : Relay :=
  (Schedule.jumps ms).foldl
    (fun r ms => settle chat ((r.step (.tick (.ofMillis ms))).getD r)) r

end Relay

end HookRelay
