import HookRelay.Mailbox
/-!
Bounded queues whose senders wait for room. Those that wait stand in line; the
first in line is let in as soon as there is room, and nobody overtakes the line.
-/

namespace HookRelay

/-- A bounded queue and the line in front of it. -/
structure Intake (α : Type) where
  queue : Mailbox α
  /-- The items whose senders wait, each with its sender's ticket, first come
  first. -/
  line : List (Nat × α) := []

/-- What becomes of an item that is brought to an intake. -/
inductive Entry where
  | accepted
  /-- Its sender stands in line. -/
  | waits
  /-- The intake is closed. -/
  | refused
  deriving DecidableEq, Repr

namespace Intake

variable {α : Type}

/-- An empty intake, if the capacity allows one. -/
def create (capacity : Nat) : Except CapacityError (Intake α) :=
  (Mailbox.create capacity).map fun queue => { queue }

/-- A sender brings an item. -/
def bring (ticket : Nat) (a : α) (i : Intake α) : Entry × Intake α :=
  if !i.queue.isListening then (.refused, i)
  else if i.line.isEmpty && i.queue.hasRoom then
    (.accepted, { i with queue := (i.queue.offer a).2 })
  else (.waits, { i with line := i.line ++ [(ticket, a)] })

/-- Lets the first in line in, if there is room, and tells its ticket. -/
def letIn (i : Intake α) : Option (Nat × Intake α) :=
  match i.line with
  | [] => none
  | (ticket, a) :: line =>
    if i.queue.isListening && i.queue.hasRoom then
      some (ticket, { queue := (i.queue.offer a).2, line })
    else none

/-- Sends the first in line away once the intake is closed, and tells its
ticket. -/
def dismiss (i : Intake α) : Option (Nat × Intake α) :=
  match i.line with
  | [] => none
  | (ticket, _) :: line => if i.queue.isListening then none else some (ticket, { i with line })

/-- Whether the sender with this ticket stands in line. -/
def isWaiting (ticket : Nat) (i : Intake α) : Bool :=
  i.line.any (·.1 == ticket)

/-- The sender with this ticket leaves the line and takes its item along. -/
def leave (ticket : Nat) (i : Intake α) : Intake α :=
  { i with line := i.line.eraseP (·.1 == ticket) }

/-- Takes the oldest item out without waiting. Whoever stands in line is a sender
from whom something may come. -/
def take (i : Intake α) : Taken α × Intake α :=
  match i.queue.take with
  | (.item a, queue) => (.item a, { i with queue })
  | (.disconnected, _) => (if i.line.isEmpty then .disconnected else .empty, i)
  | (.empty, _) => (.empty, i)

/-- The receiving end goes away, and the items with it. Those in line are still
to be told. -/
def dropReceiver (i : Intake α) : Intake α := { i with queue := i.queue.dropReceiver }

def addSender (i : Intake α) : Intake α := { i with queue := i.queue.addSender }

def dropSender (i : Intake α) : Intake α := { i with queue := i.queue.dropSender }

end Intake

end HookRelay
