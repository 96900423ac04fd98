import HookRelay.Payload

namespace HookRelay

/-- Something that happened on the chat side: a kind and optional data. -/
structure Event where
  kind : String
  data : Option Payload
  deriving DecidableEq

namespace Event

def ofKind (kind : String) : Event := ⟨kind, none⟩

/-- The event with one more entry in its data. -/
def put (e : Event) (key value : String) : Event :=
  { e with data := some ((e.data.getD Payload.empty).insert key value) }

/-- The event of one line of chat. -/
def chat (body : String) : Event :=
  (ofKind "message").put "body" body

end Event

/-- An event with a sequence number. -/
structure Message where
  kind : String
  data : Option Payload
  id : Int64
  deriving DecidableEq

namespace Message

def ofEvent (e : Event) (id : Int64) : Message := ⟨e.kind, e.data, id⟩

/-- The heartbeat that the relay sends. -/
def ping : Message := ⟨"ping", none, -1⟩

/-- Whether a client's message only answers a heartbeat. -/
def isPong (m : Message) : Bool := m.kind == "pong"

def get? (m : Message) (key : String) : Option String :=
  m.data.bind (·.get? key)

/-- The chat line that a message carries, empty if it carries none. -/
def body (m : Message) : String := (m.get? "body").getD ""

end Message

end HookRelay
