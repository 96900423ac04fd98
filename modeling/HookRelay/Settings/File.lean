import HookRelay.Settings
import HookRelay.Toml.Document
/-!
The settings in a file. A file is a document with a table for each group of
settings. What it leaves out keeps its default, and what it does not know it
skips; a value of a wrong kind spoils the file.
-/

namespace HookRelay

/-- The settings in a file, with the defaults filled in. -/
structure FileSettings where
  listen : String
  client : Nat
  inbox : Nat
  control : Nat
  outbox : Nat
  registrations : Nat
  intervalSecs : Nat
  timeoutSecs : Nat
  maxFrameLen : Nat
  room : String
  writeTimeoutSecs : Nat
  level : String
  deriving DecidableEq, Repr

namespace FileSettings

/-- How the values of a group are found: by name or by position. -/
inductive Group where
  | named (entries : Toml.Entries)
  | listed (items : List Toml.Value)

/-- A group of settings, which may be missing. An array gives its values in
order. A date or a time counts as a table without known names. -/
def group? (top : Toml.Entries) (name : String) : Option Group :=
  match top.get? name with
  | none | some .moment => some (.named [])
  | some (.table _ entries) => some (.named entries)
  | some (.array items) => some (.listed items)
  | some (.tables elements) => some (.listed (elements.map (.table .header)))
  | some _ => none

/-- The value of a group under a name or at a position, whichever applies. -/
def Group.get? (g : Group) (name : String) (position : Nat) : Option Toml.Value :=
  match g with
  | .named entries => entries.get? name
  | .listed items => items[position]?

def Group.text? (g : Group) (name : String) (position : Nat) (dflt : String) : Option String :=
  match g.get? name position with
  | none => some dflt
  | some (.text s) => some s
  | some _ => none

def Group.nat? (g : Group) (name : String) (position : Nat) (dflt : Nat) : Option Nat :=
  match g.get? name position with
  | none => some dflt
  | some (.integer (.ofNat n)) => some n
  | some _ => none

/-- The settings in a document. -/
def ofDocument? (top : Toml.Entries) : Option FileSettings := do
  let d := Settings.default
  let server ← group? top "server"
  let queues ← group? top "queues"
  let heartbeat ← group? top "heartbeat"
  let protocol ← group? top "protocol"
  let chat ← group? top "chat"
  let logging ← group? top "logging"
  return {
    listen := ← server.text? "listen" 0 d.listen
    client := ← queues.nat? "client" 0 d.clientQueue
    inbox := ← queues.nat? "inbox" 1 d.inboxQueue
    control := ← queues.nat? "control" 2 d.controlQueue
    outbox := ← queues.nat? "outbox" 3 d.outboxQueue
    registrations := ← queues.nat? "registrations" 4 d.registrationQueue
    intervalSecs := ← heartbeat.nat? "interval_secs" 0 d.heartbeatInterval.secs
    timeoutSecs := ← heartbeat.nat? "timeout_secs" 1 d.heartbeatTimeout.secs
    maxFrameLen := ← protocol.nat? "max_frame_len" 0 d.maxFrameLen
    room := ← chat.text? "room" 0 d.chatRoom
    writeTimeoutSecs := ← chat.nat? "write_timeout_secs" 1 d.chatWriteTimeout.secs
    level := ← logging.text? "level" 0 d.logLevel }

def parse? (text : String) : Option FileSettings :=
  (Toml.parse? text).bind ofDocument?

/-- The settings of a file as settings of a run. -/
def toSettings (f : FileSettings) : Settings where
  listen := f.listen
  clientQueue := f.client
  inboxQueue := f.inbox
  controlQueue := f.control
  outboxQueue := f.outbox
  registrationQueue := f.registrations
  heartbeatInterval := .ofSecs f.intervalSecs
  heartbeatTimeout := .ofSecs f.timeoutSecs
  maxFrameLen := f.maxFrameLen
  chatRoom := f.room
  chatWriteTimeout := .ofSecs f.writeTimeoutSecs
  logLevel := f.level

end FileSettings

end HookRelay
