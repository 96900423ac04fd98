import HookRelay.Log
import HookRelay.Mailbox
/-!
The clients of the relay. Every event is offered to all registered clients
without waiting; a client that cannot take it is dropped, which closes its
queue once it has been read empty. Clients that have left stay on record,
because their queues and stop signals outlive their registration.
-/

namespace HookRelay

/-- A client, in the order of registration. -/
structure Client where
  id : UInt64
  inbox : Mailbox Message
  /-- Whether the client's connection has been told to stop. -/
  stopped : Bool := false
  /-- Whether events are offered to the client. -/
  registered : Bool := true

namespace Client

/-- The client after its registration is gone, and with it the one sender of its
queue. -/
def leave (c : Client) : Client :=
  { c with registered := false, inbox := { c.inbox with senders := 0 } }

/-- Offers a message to a client, if it is registered. -/
def offer (m : Message) (c : Client) : Client × List LogEntry :=
  if !c.registered then (c, [])
  else
    match c.inbox.offer m with
    | (.accepted, inbox) => ({ c with inbox }, [])
    | (.full, _) => (c.leave, [.queueFull c.id m.id])
    | (.closed, _) => (c.leave, [.connectionGone c.id])

/-- The client after the relay has shut down. -/
def shutDown (c : Client) : Client :=
  if c.registered then { c.leave with stopped := true } else c

end Client

/-- All clients there have been, and what the next one gets. -/
structure Registry where
  /-- The capacity of each client's queue. -/
  capacity : Nat
  nextId : UInt64 := 0
  clients : List Client := []

namespace Registry

/-- The registered clients, in the order of registration. -/
def live (r : Registry) : List Client := r.clients.filter (·.registered)

def size (r : Registry) : Nat := r.live.length

/-- Registers a client. Its id is used up even if its queue cannot be created. -/
def register (r : Registry) : Except CapacityError UInt64 × Registry × List LogEntry :=
  let next := { r with nextId := r.nextId + 1 }
  match Mailbox.create r.capacity with
  | .error e => (.error e, next, [])
  | .ok inbox =>
    let r' := { next with clients := r.clients ++ [{ id := r.nextId, inbox }] }
    (.ok r.nextId, r', [.clientRegistered r.nextId r'.size])

/-- Offers a message to every registered client in order, and tells how many
were dropped. -/
def broadcast (r : Registry) (m : Message) : Nat × Registry × List LogEntry :=
  let offers := r.clients.map (Client.offer m)
  let r' := { r with clients := offers.map (·.1) }
  (r.size - r'.size, r', offers.flatMap (·.2))

/-- Stops every registered client's connection and forgets all registrations. -/
def shutDown (r : Registry) : Registry :=
  { r with clients := r.clients.map Client.shutDown }

def modify (r : Registry) (k : Nat) (f : Client → Client) : Registry :=
  { r with clients := r.clients.modify k f }

end Registry

end HookRelay
