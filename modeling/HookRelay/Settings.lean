import HookRelay.Duration
import HookRelay.Failure

namespace HookRelay

structure Settings where
  listen : String
  /-- The capacity of each client's queue. -/
  clientQueue : Nat
  /-- The capacity of the intake for chat events. -/
  inboxQueue : Nat
  /-- The capacity of the intake for commands. -/
  controlQueue : Nat
  /-- The capacity of the intake for clients' messages. -/
  outboxQueue : Nat
  /-- The capacity of the intake for new clients. -/
  registrationQueue : Nat
  /-- The time between two heartbeats. -/
  heartbeatInterval : Duration
  /-- The time within which a frame has to be read or written. -/
  heartbeatTimeout : Duration
  /-- The greatest payload of a frame. -/
  maxFrameLen : Nat
  chatRoom : String
  chatWriteTimeout : Duration
  logLevel : String
  deriving DecidableEq, Repr

namespace Settings

/-- What holds where nothing is set. -/
def default : Settings where
  listen := "127.0.0.1:1984"
  clientQueue := 8
  inboxQueue := 4
  controlQueue := 4
  outboxQueue := 4
  registrationQueue := 4
  heartbeatInterval := .ofSecs 5
  heartbeatTimeout := .ofSecs 10
  maxFrameLen := 4096
  chatRoom := "golang@conference.jabber.ru"
  chatWriteTimeout := .ofSecs 5
  logLevel := "info"

/-- A setting that the relay cannot honour. -/
inductive Violation where
  /-- A queue that holds nothing. -/
  | emptyQueue (name : String)
  /-- A time that is zero. -/
  | zeroTime (name : String)
  /-- A frame length that two bytes do not hold, or zero. -/
  | frameLength
  deriving DecidableEq, Repr

def Violation.text : Violation → String
  | .emptyQueue name => name ++ " must be at least 1"
  | .zeroTime name => name ++ " must be non-zero"
  | .frameLength =>
    "protocol.max_frame_len must be between 1 and " ++ toString Wire.maxPayload

/-- The queues with their names, in the order in which they are checked. -/
def queues (s : Settings) : List (String × Nat) :=
  [("queues.client", s.clientQueue), ("queues.inbox", s.inboxQueue),
    ("queues.control", s.controlQueue), ("queues.outbox", s.outboxQueue),
    ("queues.registrations", s.registrationQueue)]

/-- The times with their names, in the order in which they are checked. -/
def times (s : Settings) : List (String × Duration) :=
  [("heartbeat.interval", s.heartbeatInterval), ("heartbeat.timeout", s.heartbeatTimeout),
    ("chat.write_timeout", s.chatWriteTimeout)]

/-- All that the relay cannot honour, in the order in which it is reported. -/
def violations (s : Settings) : List Violation :=
  (s.queues.filter (·.2 = 0)).map (.emptyQueue ·.1) ++
    (s.times.filter (·.2 = Duration.zero)).map (.zeroTime ·.1) ++
    (if s.maxFrameLen = 0 ∨ s.maxFrameLen > Wire.maxPayload then [.frameLength] else [])

/-- The settings, if the relay can honour all of them. -/
def validate (s : Settings) : Except Violation Settings :=
  match s.violations with
  | [] => .ok s
  | v :: _ => .error v

theorem validate_eq_ok_iff {s s' : Settings} :
    s.validate = .ok s' ↔ s.violations = [] ∧ s' = s := by
  unfold validate
  split
  · next hnone => simp [hnone, eq_comm]
  · next hsome => simp [hsome]

end Settings

/-- Why there are no settings. -/
inductive SettingsError where
  /-- The file could not be read as a text. -/
  | unreadable (path : String) (e : StreamError)
  /-- The file is no document, or holds a value of a wrong kind. -/
  | unparsable (path : String)
  /-- The merged settings cannot be honoured. -/
  | invalid (detail : String)
  deriving DecidableEq, Repr

def SettingsError.text : SettingsError → String
  | .unreadable path e => "Failed to read config file '" ++ path ++ "': " ++ e.text
  | .unparsable path => "Failed to parse config file '" ++ path ++ "'"
  | .invalid detail => "Invalid configuration: " ++ detail

end HookRelay
