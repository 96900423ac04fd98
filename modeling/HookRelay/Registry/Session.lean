import HookRelay.Registry
/-!
A registry together with the far ends of its queues: the inboxes that clients
read, and the shared intake into which they send. A session is any sequence of
steps on these; clients are named by their position.
-/

namespace HookRelay.Registry

/-- What can be done to a registry, its inboxes and the intake. -/
inductive Step where
  | register
  | broadcast (m : Message)
  /-- Takes one message from a client's inbox. -/
  | recv (client : Nat)
  /-- Takes all messages from a client's inbox. -/
  | drain (client : Nat)
  | closeInbox (client : Nat)
  | dropInbox (client : Nat)
  /-- Drops a client's inbox and its sender into the intake. -/
  | dropClient (client : Nat)
  | stop (client : Nat)
  /-- Offers a client's message to the intake. -/
  | send (client : Nat) (m : Message)
  /-- Takes one message from the intake. -/
  | intake
  | closeIntake
  /-- Drops the one sender into the intake that belongs to no client. -/
  | dropIntakeSender
  | shutDown
  deriving DecidableEq

/-- What a read finds. -/
inductive Read (α : Type) where
  | item (a : α)
  | empty
  | disconnected
  /-- The reader itself has been dropped. -/
  | dropped
  deriving DecidableEq

def Read.ofTaken {α : Type} : Taken α → Read α
  | .item a => .item a
  | .empty => .empty
  | .disconnected => .disconnected

/-- What a step answers. -/
inductive Reply where
  | none
  | registered (id : UInt64)
  | refused (e : CapacityError)
  | pruned (n : Nat)
  | read (r : Read Message)
  | drained (ids : List Int64) (last : Read Unit)
  | offered (o : Offer)
  /-- The client that would send has been dropped. -/
  | senderDropped
  /-- There is no client at this position. -/
  | noClient (client clients : Nat)
  deriving DecidableEq

structure Session where
  registry : Registry
  intake : Mailbox Message
  /-- Per client, whether its sender into the intake is still there. -/
  sending : List Bool := []
  /-- Whether the sender that belongs to no client is still there. -/
  spareSender : Bool := true

namespace Session

/-- A session without clients, whose intake has the capacity `outbox`. -/
def start (capacity outbox : Nat) : Except CapacityError Session := do
  return { registry := { capacity }, intake := ← Mailbox.create outbox }

/-- Reads a client's inbox once. -/
def recv (c : Client) : Read Message × Client :=
  if c.inbox.receiver = .gone then (.dropped, c)
  else
    let (taken, inbox) := c.inbox.take
    (.ofTaken taken, { c with inbox })

/-- Reads a client's inbox until it has nothing. -/
def drain (c : Client) : List Message × Read Unit × Client :=
  if c.inbox.receiver = .gone then ([], .dropped, c)
  else
    let last : Read Unit := if c.inbox.isOver then .disconnected else .empty
    (c.inbox.items, last, { c with inbox := { c.inbox with items := [] } })

/-- Drops a client's sender into the intake, once. -/
def dropSender (s : Session) (k : Nat) : Session :=
  if s.sending.getD k false then
    { s with sending := s.sending.set k false, intake := s.intake.dropSender }
  else s

def stepClient (s : Session) (k : Nat) (c : Client) : Step → Reply × Session
  | .recv _ =>
    let (r, c) := recv c
    (.read r, { s with registry := s.registry.modify k (fun _ => c) })
  | .drain _ =>
    let (ms, last, c) := drain c
    (.drained (ms.map (·.id)) last, { s with registry := s.registry.modify k (fun _ => c) })
  | .closeInbox _ =>
    (.none, { s with registry := s.registry.modify k fun c => { c with inbox := c.inbox.close } })
  | .dropInbox _ =>
    (.none,
      { s with registry := s.registry.modify k fun c => { c with inbox := c.inbox.dropReceiver } })
  | .dropClient _ =>
    let s := s.dropSender k
    (.none,
      { s with registry := s.registry.modify k fun c => { c with inbox := c.inbox.dropReceiver } })
  | .stop _ =>
    (.none, { s with registry := s.registry.modify k fun c => { c with stopped := true } })
  | .send _ m =>
    if s.sending.getD k false then
      let (o, intake) := s.intake.offer m
      (.offered o, { s with intake })
    else (.senderDropped, s)
  | _ => (.none, s)

/-- The client that a step is about. -/
def client? : Step → Option Nat
  | .recv k | .drain k | .closeInbox k | .dropInbox k | .dropClient k | .stop k | .send k _ =>
    some k
  | _ => none

/-- One step of a session: its answer, the state after it and its log lines. -/
def step (s : Session) (a : Step) : Reply × Session × List LogEntry :=
  match client? a with
  | some k =>
    match s.registry.clients[k]? with
    | none => (.noClient k s.registry.clients.length, s, [])
    | some c =>
      let (r, s) := s.stepClient k c a
      (r, s, [])
  | none =>
    match a with
    | .register =>
      match s.registry.register with
      | (.ok id, registry, log) =>
        (.registered id,
          { s with registry, intake := s.intake.addSender, sending := s.sending ++ [true] }, log)
      | (.error e, registry, log) => (.refused e, { s with registry }, log)
    | .broadcast m =>
      let (n, registry, log) := s.registry.broadcast m
      (.pruned n, { s with registry }, log)
    | .intake =>
      let (t, intake) := s.intake.take
      (.read (.ofTaken t), { s with intake }, [])
    | .closeIntake => (.none, { s with intake := s.intake.close }, [])
    | .dropIntakeSender =>
      if s.spareSender then
        (.none, { s with spareSender := false, intake := s.intake.dropSender }, [])
      else (.none, s, [])
    | .shutDown => (.none, { s with registry := s.registry.shutDown }, [])
    | _ => (.none, s, [])

end Session

end HookRelay.Registry
