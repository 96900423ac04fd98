import HookRelay.Settings.Load

namespace HookRelay

/-- A folder with files and with empty folders in it. -/
structure Folder where
  files : List (String × List UInt8)
  folders : List String

namespace Folder

/-- Where the steps of a path have led so far. -/
inductive Place where
  | here
  | inside (folder : String)
  | file (content : List UInt8)

def enter (f : Folder) : Place → String → Except StreamError Place
  | .file _, _ => .error (.os 20)
  | place, "" | place, "." => .ok place
  | .inside _, ".." => .ok .here
  | .inside _, _ => .error (.os 2)
  | .here, name =>
    match f.files.lookup name with
    | some content => .ok (.file content)
    | none => if f.folders.contains name then .ok (.inside name) else .error (.os 2)

/-- What a path in the folder leads to. -/
def read (f : Folder) : ReadFile := fun path =>
  match path.toList with
  | [] | '/' :: _ => .error (.os 2)
  | _ =>
    match (path.splitOn "/").foldlM f.enter .here with
    | .error e => .error e
    | .ok (.file content) => .ok content
    | .ok _ => .error (.os 21)

end Folder

end HookRelay
