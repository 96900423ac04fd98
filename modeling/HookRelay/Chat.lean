import HookRelay.Message
/-!
What leaves for the chat session. Only the body of a client's message goes to
the room; its kind, its other data and its number stay behind.
-/

namespace HookRelay

/-- A line addressed to a chat room. -/
structure Stanza where
  room : String
  body : String
  deriving DecidableEq, Repr

/-- The line that a client's message puts into a room. -/
def Stanza.ofMessage (room : String) (m : Message) : Stanza := ⟨room, m.body⟩

/-- A control command, whose text the relay does not interpret. -/
structure Command where
  text : String
  deriving DecidableEq, Repr

end HookRelay
