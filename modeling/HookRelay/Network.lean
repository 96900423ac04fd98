import HookRelay.Address
import HookRelay.Wire.Frame
/-!
The machine that the relay runs on, as far as its sockets are concerned: where
they can be bound, and whether anybody can connect to them.
-/

namespace HookRelay

structure Network where
  /-- The addresses at which somebody else listens. -/
  taken : List Address := []
  /-- Whether there is a way to the machine's own addresses. -/
  reachable : Bool := true

namespace Network

/-- Whether a host is this machine. -/
def isOwn : Host → Bool
  | .v4 127 _ _ _ | .v4 0 0 0 0 => true
  | _ => false

def bind (n : Network) (a : Address) : Except StreamError Unit :=
  if n.taken.contains a then .error (.os 98)
  else if isOwn a.host then .ok ()
  else .error (.os 99)

/-- Binds a socket to the address that a text writes down. -/
def listen (n : Network) (text : String) : Except StreamError Address :=
  match Address.parse? text with
  | none => .error (.other "invalid socket address syntax")
  | some a => (n.bind a).map fun _ => a

/-- Connects to a socket of this machine. -/
def dial (n : Network) : Except StreamError Unit :=
  if n.reachable then .ok () else .error (.os 101)

end Network

end HookRelay
