/-!
The two byte streams between the relay and one client. A stream keeps all bytes
that were ever put into it and how many of them have been taken out, so that
what either side has said and heard can be read off it.
-/

namespace HookRelay

/-- Bytes on their way from one end to the other. -/
structure Stream where
  /-- All bytes that were put in, oldest first. -/
  bytes : List UInt8 := []
  /-- How many of them were taken out. -/
  taken : Nat := 0
  /-- Whether nothing more will be put in. -/
  ended : Bool := false
  deriving DecidableEq, Repr

namespace Stream

/-- The bytes that were put in and not yet taken out. -/
def left (s : Stream) : List UInt8 := s.bytes.drop s.taken

/-- The bytes that were taken out. -/
def heard (s : Stream) : List UInt8 := s.bytes.take s.taken

def put (bs : List UInt8) (s : Stream) : Stream := { s with bytes := s.bytes ++ bs }

def take (n : Nat) (s : Stream) : Stream := { s with taken := s.taken + n }

def close (s : Stream) : Stream := { s with ended := true }

/-- Whether everything has been taken out and nothing more will come. -/
def isOver (s : Stream) : Bool := s.ended && s.left.isEmpty

end Stream

structure Socket where
  /-- From the client to the relay. -/
  inbound : Stream := {}
  /-- From the relay to the client. -/
  outbound : Stream := {}
  /-- How many bytes may be on their way to the client. -/
  window : Nat
  /-- Whether the client has closed its end. -/
  closed : Bool := false
  deriving DecidableEq, Repr

namespace Socket

/-- How many more bytes may be put on their way to the client. -/
def room (s : Socket) : Nat := s.window - s.outbound.left.length

def send (bs : List UInt8) (s : Socket) : Socket := { s with inbound := s.inbound.put bs }

/-- The client will send nothing more. -/
def halfClose (s : Socket) : Socket := { s with inbound := s.inbound.close }

def close (s : Socket) : Socket := { s.halfClose with closed := true }

/-- The client takes all bytes that have come to it. -/
def receive (s : Socket) : Socket :=
  { s with outbound := s.outbound.take s.outbound.left.length }

/-- The relay lets go of the socket. -/
def hangUp (s : Socket) : Socket := { s with outbound := s.outbound.close }

/-- Whether the client can still send. -/
def isSending (s : Socket) : Bool := !s.inbound.ended

end Socket

end HookRelay
