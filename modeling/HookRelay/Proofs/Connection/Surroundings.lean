import HookRelay.Connection.Step
import HookRelay.Proofs.Intake
import HookRelay.Proofs.Steps
/-!
A connection among all that it shares. Between the steps of its tasks the client uses its
end of the socket, the event loop queues messages for the client or forgets it, the stop
signal comes from elsewhere, and other senders and the loop use the intake for messages,
in any order.
-/

namespace HookRelay.Connection

/-- What others do to what a connection shares with them. -/
inductive Around where
  | send (bs : List UInt8)
  | halfClose
  | close
  | receive
  /-- The event loop offers a message to the client. -/
  | queue (m : Message)
  /-- The event loop forgets the client. -/
  | closeQueue
  | stop
  /-- Another sender brings a message to the intake. -/
  | bring (ticket : Nat) (m : Message)
  /-- Another sender takes back what it has in the line at the intake. -/
  | leave (ticket : Nat)
  /-- The first in line at the intake is let in. -/
  | letIn
  /-- The event loop takes a message out of the intake. -/
  | take
  | closeIntake
  | addSender
  | dropSender
  | note (entries : List LogEntry)
  deriving DecidableEq

/-- What can happen to a connection and to what it shares. -/
inductive Happening where
  | step (now : Nat) (a : Action)
  | around (o : Around)
  deriving DecidableEq

/-- What others do around the connection with a ticket, if it can be done. -/
def outside (ticket : Nat) (o : Around) (l : Link) : Option Link :=
  match o with
  | .send bs =>
    if l.socket.isSending then some { l with socket := l.socket.send bs } else none
  | .halfClose => some { l with socket := l.socket.halfClose }
  | .close => some { l with socket := l.socket.close }
  | .receive => some { l with socket := l.socket.receive }
  | .queue m => some { l with inbox := (l.inbox.offer m).2 }
  | .closeQueue => some { l with inbox := { l.inbox with senders := 0 } }
  | .stop => some l.stop
  | .bring t m => if t = ticket then none else some { l with intake := (l.intake.bring t m).2 }
  | .leave t => if t = ticket then none else some { l with intake := l.intake.leave t }
  | .letIn => l.intake.letIn.map fun (_, intake) => { l with intake }
  | .take => some { l with intake := l.intake.take.2 }
  | .closeIntake => some { l with intake := l.intake.dropReceiver }
  | .addSender => some { l with intake := l.intake.addSender }
  | .dropSender => some { l with intake := l.intake.dropSender }
  | .note entries => some (l.write entries)

def happen (limits : Limits) (h : Happening) (s : Connection × Link) :
    Option (Connection × Link) :=
  match h with
  | .step now a => step limits now a s.1 s.2
  | .around o => (outside s.1.ticket o s.2).map (s.1, ·)

/-- The connection and its link after all this has happened to them, if it can. -/
def run (limits : Limits) (hs : List Happening) (s : Connection × Link) :
    Option (Connection × Link) :=
  Steps.run (happen limits) hs s

variable {ticket : Nat} {o : Around} {l l' : Link}

/-- The stop signal is never taken back. -/
theorem stopped_outside (hstopped : l.stopped = true) (h : outside ticket o l = some l') :
    l'.stopped = true := by
  cases o with
  | send | bring | leave =>
      simp only [outside] at h
      split at h <;> cases h
      exact hstopped
  | letIn =>
      obtain ⟨⟨t, intake⟩, -, rfl⟩ := Option.map_eq_some_iff.mp h
      exact hstopped
  | stop =>
      cases h
      rfl
  | halfClose | close | receive | queue | closeQueue | take | closeIntake | addSender | dropSender
  | note =>
      cases h
      exact hstopped

end HookRelay.Connection
