import HookRelay.Console.Run
/-!
The program. It reads the settings file that the command line names and the whole
of standard input, and writes the log to standard output. No client can reach the
relay that it runs.
-/

namespace HookRelay.Program

/-- What an error of the operating system says about a file. -/
def streamError : IO.Error → StreamError
  | .noFileOrDirectory .. => .os 2
  | .permissionDenied .. => .os 13
  | .inappropriateType .. => .os 21
  | e => .other (toString e)

/-- Reads a file, if there is one to read. -/
def readFile : Option String → IO (Except StreamError (List UInt8))
  | none => return .error (.os 2)
  | some path => do
    try
      return .ok (← IO.FS.readBinFile path).toList
    catch e => return .error (streamError e)

def readInput : IO (List UInt8) := do
  let input ← IO.getStdin
  let mut all := ByteArray.empty
  repeat
    let part ← input.read 65536
    if part.isEmpty then break
    all := all ++ part
  return all.toList

def usage : String :=
  "Options: -c FILE, -l ADDRESS, -r ROOM, --heartbeat-interval SECONDS, " ++
    "--heartbeat-timeout SECONDS, --log-level LEVEL, -h, -V"

/-- What the program says when it fails. -/
def failureText : Console.Failure → String
  | .settings (.options _) => usage
  | .settings (.settings e) => e.text
  | .queue e => e.text
  | .notText => StreamError.notText.text

end HookRelay.Program

open HookRelay in
def main (args : List String) : IO UInt32 := do
  let path := (Options.parse args).toOption.bind (·.config)
  let content ← Program.readFile path
  let input ← Program.readInput
  match Console.run { reachable := false } (fun _ => content) args .ok input false with
  | .error e =>
    IO.eprintln e.text
    return 1
  | .ok o =>
    for entry in o.log do
      IO.println entry.text
    match o.failure with
    | some e => IO.eprintln (Program.failureText e)
    | none => pure ()
    return UInt32.ofNat o.exitCode
