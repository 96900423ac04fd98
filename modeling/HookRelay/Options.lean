/-!
The command line. Options are read from left to right. A value in the same
argument as its option is taken at once; a value in an argument of its own is
looked at when the next known option or the end of the line is reached, so an
unknown argument after it is reported first.
-/

namespace HookRelay

/-- What was given on the command line. -/
structure Options where
  config : Option String := none
  listen : Option String := none
  room : Option String := none
  heartbeatInterval : Option Nat := none
  heartbeatTimeout : Option Nat := none
  /-- Absent where the option is not given. -/
  logLevel : Option String := none
  deriving DecidableEq, Repr

/-- Why a command line is not run. -/
inductive OptionsError where
  | help
  | version
  /-- An option without a value, or with one that cannot be empty and is. -/
  | invalidValue
  /-- A value that is not of the option's kind. -/
  | valueValidation
  /-- An option that is given twice. -/
  | argumentConflict
  | unknownArgument
  /-- A value for a switch. -/
  | tooManyValues
  deriving DecidableEq, Repr

/-- The exit code of the program. -/
def OptionsError.exitCode : OptionsError → Nat
  | .help | .version => 0
  | _ => 2

namespace Options

/-- The level that is in force where the option is not given. -/
def defaultLogLevel : String := "info"

/-- The options that take a value. -/
inductive Key where
  | config
  | listen
  | room
  | heartbeatInterval
  | heartbeatTimeout
  | logLevel
  deriving DecidableEq, Repr

/-- What an option's name stands for. -/
inductive Switch where
  | valued (k : Key)
  | help
  | version
  deriving DecidableEq, Repr

def Switch.ofLong? (name : String) : Option Switch :=
  match name with
  | "config" => some (.valued .config)
  | "listen" => some (.valued .listen)
  | "room" => some (.valued .room)
  | "heartbeat-interval" => some (.valued .heartbeatInterval)
  | "heartbeat-timeout" => some (.valued .heartbeatTimeout)
  | "log-level" => some (.valued .logLevel)
  | "help" => some .help
  | "version" => some .version
  | _ => none

def Switch.ofShort? (letter : Char) : Option Switch :=
  match letter with
  | 'c' => some (.valued .config)
  | 'l' => some (.valued .listen)
  | 'r' => some (.valued .room)
  | 'h' => some .help
  | 'V' => some .version
  | _ => none

/-- A number of 64 bits: digits, perhaps behind a plus. -/
def number? (s : String) : Option Nat :=
  let ds :=
    match s.toList with
    | '+' :: cs => cs
    | cs => cs
  if ds.isEmpty || !ds.all Char.isDigit then none
  else
    let n := ds.foldl (fun n d => n * 10 + (d.toNat - '0'.toNat)) 0
    if n < UInt64.size then some n else none

/-- The options with one more option set. -/
def set (o : Options) (k : Key) (v : String) : Except OptionsError Options :=
  match k with
  | .config =>
    if o.config.isSome then .error .argumentConflict
    else if v.isEmpty then .error .invalidValue
    else .ok { o with config := some v }
  | .listen =>
    if o.listen.isSome then .error .argumentConflict else .ok { o with listen := some v }
  | .room =>
    if o.room.isSome then .error .argumentConflict else .ok { o with room := some v }
  | .heartbeatInterval =>
    if o.heartbeatInterval.isSome then .error .argumentConflict
    else
      match number? v with
      | some n => .ok { o with heartbeatInterval := some n }
      | none => .error .valueValidation
  | .heartbeatTimeout =>
    if o.heartbeatTimeout.isSome then .error .argumentConflict
    else
      match number? v with
      | some n => .ok { o with heartbeatTimeout := some n }
      | none => .error .valueValidation
  | .logLevel =>
    if o.logLevel.isSome then .error .argumentConflict else .ok { o with logLevel := some v }

/-- A command line that has been read up to some point. -/
structure Draft where
  options : Options := {}
  /-- An option whose value stands in an argument of its own, and that value
  once it has been met. -/
  pending : Option (Key × Option String) := none
  /-- Whether only positional arguments may follow. -/
  escaped : Bool := false

namespace Draft

/-- Looks at the option whose value was put off. -/
def resolve (d : Draft) : Except OptionsError Draft :=
  match d.pending with
  | none => .ok d
  | some (_, none) => .error .invalidValue
  | some (k, some v) => return { d with options := ← d.options.set k v, pending := none }

/-- An option with its value in the same argument, or with none there. -/
def option (d : Draft) (k : Key) (attached : Option String) : Except OptionsError Draft := do
  let d ← d.resolve
  match attached with
  | some v => return { d with options := ← d.options.set k v }
  | none => return { d with pending := some (k, none) }

/-- A switch, which ends the reading. -/
def switch (d : Draft) (e : OptionsError) : Except OptionsError Draft := do
  let _ ← d.resolve
  .error e

/-- An argument of the form `--name` or `--name=value`. -/
def long (d : Draft) (body : List Char) : Except OptionsError Draft :=
  let name := String.ofList (body.takeWhile (· != '='))
  let attached : Option String :=
    match body.dropWhile (· != '=') with
    | _ :: v => some (String.ofList v)
    | [] => none
  match Switch.ofLong? name with
  | none => .error .unknownArgument
  | some (.valued k) => d.option k attached
  | some .help => if attached.isSome then .error .tooManyValues else d.switch .help
  | some .version => if attached.isSome then .error .tooManyValues else d.switch .version

/-- An argument of the form `-x`, `-xvalue` or `-x=value`. -/
def short (d : Draft) (letter : Char) (rest : List Char) : Except OptionsError Draft :=
  match Switch.ofShort? letter with
  | none => .error .unknownArgument
  | some (.valued k) =>
    let attached : Option String :=
      match rest with
      | [] => none
      | '=' :: v => some (String.ofList v)
      | v => some (String.ofList v)
    d.option k attached
  | some .help => d.switch .help
  | some .version => d.switch .version

/-- An argument that is no option: a value that is waited for, or one too
many. -/
def plain (d : Draft) (arg : String) : Except OptionsError Draft :=
  match d.pending with
  | some (k, none) => .ok { d with pending := some (k, some arg) }
  | _ => .error .unknownArgument

/-- The next argument. -/
def add (d : Draft) (arg : String) : Except OptionsError Draft :=
  if d.escaped then .error .unknownArgument
  else
    match arg.toList with
    | ['-', '-'] => .ok { d with escaped := true }
    | '-' :: '-' :: body => d.long body
    | '-' :: letter :: rest => d.short letter rest
    | _ => d.plain arg

end Draft

/-- The options that a command line gives, without the program's name. -/
def parse (args : List String) : Except OptionsError Options := do
  let d ← args.foldlM Draft.add {}
  return (← d.resolve).options

end Options

end HookRelay
