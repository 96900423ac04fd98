import HookRelay.Options
import HookRelay.Settings.File
import HookRelay.Text.Utf8

namespace HookRelay

/-- What a path leads to. -/
abbrev ReadFile := String → Except StreamError (List UInt8)

/-- What is said about bytes that are no text. -/
def StreamError.notText : StreamError := .other "stream did not contain valid UTF-8"

namespace Settings

/-- The settings with what the command line gives put over them. The default log
level on the command line does not count as given. -/
def override (s : Settings) (o : Options) : Settings :=
  let level := o.logLevel.getD Options.defaultLogLevel
  { s with
    listen := o.listen.getD s.listen
    chatRoom := o.room.getD s.chatRoom
    heartbeatInterval := (o.heartbeatInterval.map Duration.ofSecs).getD s.heartbeatInterval
    heartbeatTimeout := (o.heartbeatTimeout.map Duration.ofSecs).getD s.heartbeatTimeout
    logLevel := if level = Options.defaultLogLevel then s.logLevel else level }

/-- The settings of a file, or the defaults where there is none. -/
def ofFile (read : ReadFile) : Option String → Except SettingsError Settings
  | none => .ok default
  | some path =>
    match read path with
    | .error e => .error (.unreadable path e)
    | .ok bs =>
      match Text.ofBytes? bs with
      | none => .error (.unreadable path .notText)
      | some text =>
        match FileSettings.parse? text with
        | none => .error (.unparsable path)
        | some f => .ok f.toSettings

/-- The settings of a run with these options. -/
def ofOptions (read : ReadFile) (o : Options) : Except SettingsError Settings := do
  let s ← ofFile read o.config
  match (s.override o).validate with
  | .ok s => .ok s
  | .error v => .error (.invalid v.text)

/-- Why a command line gives no settings. -/
inductive LoadError where
  | options (e : OptionsError)
  | settings (e : SettingsError)
  deriving DecidableEq, Repr

/-- The settings of a run with this command line. -/
def load (read : ReadFile) (args : List String) : Except LoadError Settings :=
  match Options.parse args with
  | .error e => .error (.options e)
  | .ok o => (ofOptions read o).mapError .settings

end Settings

end HookRelay
