import HookRelay.Failure
/-!
Bounded queues between tasks. Items leave in the order in which they came in.
A closed queue takes nothing more in, but what it holds can still be taken out.
-/

namespace HookRelay

/-- What became of the receiving end of a queue. -/
inductive Receiver where
  | listening
  | closed
  | gone
  deriving DecidableEq, Repr

/-- A bounded queue with its two ends. -/
structure Mailbox (α : Type) where
  capacity : Nat
  /-- The items in the queue, oldest first. -/
  items : List α := []
  receiver : Receiver := .listening
  /-- How many senders there are. -/
  senders : Nat := 1

/-- What a sender learns. -/
inductive Offer where
  | accepted
  | full
  | closed
  deriving DecidableEq, Repr

/-- What a receiver finds. -/
inductive Taken (α : Type) where
  | item (a : α)
  | empty
  | disconnected
  deriving DecidableEq

namespace Mailbox

variable {α : Type}

/-- An empty queue, if the capacity allows one. -/
def create (capacity : Nat) : Except CapacityError (Mailbox α) :=
  if capacity = 0 then .error .zero
  else if capacity > maxCapacity then .error .tooLarge
  else .ok { capacity }

def isListening (m : Mailbox α) : Bool := m.receiver = .listening

def hasRoom (m : Mailbox α) : Bool := m.items.length < m.capacity

/-- Puts an item in without waiting. A queue that is both closed and full counts
as closed. -/
def offer (m : Mailbox α) (a : α) : Offer × Mailbox α :=
  if !m.isListening then (.closed, m)
  else if !m.hasRoom then (.full, m)
  else (.accepted, { m with items := m.items ++ [a] })

/-- Whether nothing can come in any more. -/
def isOver (m : Mailbox α) : Bool := !m.isListening || m.senders = 0

/-- Takes the oldest item out without waiting. -/
def take (m : Mailbox α) : Taken α × Mailbox α :=
  match m.items with
  | a :: rest => (.item a, { m with items := rest })
  | [] => (if m.isOver then .disconnected else .empty, m)

/-- The receiving end closes; what is in the queue can still be taken. -/
def close (m : Mailbox α) : Mailbox α :=
  { m with receiver := if m.receiver = .gone then .gone else .closed }

/-- The receiving end goes away, and the items with it. -/
def dropReceiver (m : Mailbox α) : Mailbox α :=
  { m with receiver := .gone, items := [] }

def addSender (m : Mailbox α) : Mailbox α :=
  { m with senders := m.senders + 1 }

def dropSender (m : Mailbox α) : Mailbox α :=
  { m with senders := m.senders - 1 }

end Mailbox

end HookRelay
