import HookRelay.Console
import HookRelay.Relay.Settle
import HookRelay.Settings.Load
import HookRelay.Wire.Received
/-!
The whole program: it loads its settings, starts a relay, makes one call after
another as the console's input asks for, and stops the relay at the end of the
input or when it is interrupted. Its chat session takes every line at once.
-/

namespace HookRelay.Console

/-- Why the program fails. -/
inductive Failure where
  | settings (e : Settings.LoadError)
  /-- A queue of the relay cannot be created. -/
  | queue (e : CapacityError)
  /-- A line of the input is no text. -/
  | notText
  deriving DecidableEq, Repr

/-- The exit code of the program. A queue that cannot be created breaks it down. -/
def Failure.exitCode : Failure → Nat
  | .settings (.options e) => e.exitCode
  | .settings (.settings _) | .notText => 1
  | .queue _ => 101

/-- The chat session that takes every line. -/
def chat : ChatSession := fun _ => {}

/-- The relay once everything that can move has moved. -/
def settle (r : Relay) : Relay := r.settle chat

/-- The relay after some steps, as far as they can be taken, and after all that
follows from them. -/
def perform (as : List Relay.Action) (r : Relay) : Relay :=
  settle (as.foldl (fun r a => (r.step a).getD r) r)

/-- A relay that has been started. -/
def start (n : Network) (s : Settings) : Except CapacityError Relay :=
  (Relay.create n s).map settle

/-- Makes calls one after another, each under its position as a ticket. -/
def feed (asks : List Ask) (r : Relay) : Relay :=
  asks.zipIdx.foldl
    (fun r (a, ticket) => perform [.loop (.call ticket a), .loop (.bring ticket)] r) r

/-- The relay after its handle is gone. -/
def release (r : Relay) : Relay :=
  perform [.loop .stop, .loop .dropEventSender, .loop .dropCommandSender] r

/-- A client connects and sends messages, each once the one before is dealt with. -/
def visit (messages : List Message) (r : Relay) : Except StreamError Relay := do
  r.network.dial
  let k := r.sockets.length
  return messages.foldl
    (fun r m =>
      match Wire.encodeFrame m Wire.maxPayload with
      | .ok frame => perform [.send k frame] r
      | .error _ => r)
    (perform [.dial] r)

/-- How the reading of the input ends. -/
inductive Ending where
  | inputClosed
  | interrupted
  deriving DecidableEq, Repr

/-- What a run of the program comes to. -/
structure Outcome where
  /-- The relay at the end, if it was ever started. -/
  relay : Option Relay := none
  ending : Option Ending := none
  failure : Option Failure := none

namespace Outcome

def exitCode (o : Outcome) : Nat := (o.failure.map Failure.exitCode).getD 0

/-- Whether the relay was started and did not come to listen. -/
def hasNoListener (o : Outcome) : Bool := o.relay.any (·.acceptor.state = .disabled)

/-- Whether the relay was stopped in order. -/
def isStopped (o : Outcome) : Bool := o.ending.isSome

def log (o : Outcome) : List LogEntry := (o.relay.map (·.loop.log)).getD []

/-- The commands that were handled, in order. -/
def commands (o : Outcome) : List String :=
  o.log.filterMap fun
    | .commandIgnored text => some text
    | _ => none

/-- The lines that the chat session took, in order. -/
def stanzas (o : Outcome) : List Stanza :=
  (o.relay.map fun r => r.loop.deliveries.map (·.stanza)).getD []

/-- The messages that the first client received, without the heartbeats. -/
def received (o : Outcome) : List Message :=
  match o.relay.bind (·.sockets.head?) with
  | none => []
  | some s => (Wire.received s.outbound.heard).1.filter (· ≠ Message.ping)

end Outcome

/-- The end of a run, after all of the input has been read. -/
def finish (input : Input) (interrupted : Bool) (r : Relay) : Outcome :=
  let relay := some (release r)
  if !input.isText then { relay, failure := some .notText }
  else { relay, ending := some (if interrupted then .interrupted else .inputClosed) }

/-- A run of the program with a command line and an input. While the relay
listens, `guest` may do something before the input is read. -/
def run (n : Network) (read : ReadFile) (args : List String)
    (guest : Relay → Except StreamError Relay) (input : List UInt8) (interrupted : Bool) :
    Except StreamError Outcome :=
  match Settings.load read args with
  | .error e => .ok { failure := some (.settings e) }
  | .ok settings =>
    match start n settings with
    | .error e => .ok { failure := some (.queue e) }
    | .ok r => do
      let r ← if r.isListening then guest r else .ok r
      let input := Input.ofBytes input
      return finish input interrupted (feed input.asks r)

end HookRelay.Console
