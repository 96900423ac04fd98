import HookRelay.Message
import HookRelay.Wire.Marker
/-!
Reading a packed message. The bytes are read once, front to back, and the first
problem met is the answer. A message is a map of named fields or a list of
fields; fields of other names are skipped whole, up to a depth.
-/

namespace HookRelay.Wire

/-- Why bytes are not a packed message. -/
inductive DecodeError where
  /-- The bytes end where a value has to start. -/
  | missingMarker
  /-- The bytes end inside a value. -/
  | missingData
  /-- The marker alone rules the value out. -/
  | wrongMarker
  /-- A complete value does not fit where it stands. -/
  | malformed
  /-- A text is not well-formed UTF-8. -/
  | notUtf8
  /-- A list of fields goes on after the last field. -/
  | tooManyFields
  /-- A skipped value is nested too deeply. -/
  | tooDeep
  deriving DecidableEq, Repr

/-- A reader takes what it needs from the front of the bytes. -/
abbrev Reader := StateT (List UInt8) (Except DecodeError)

namespace Reader

def fail {α : Type} (e : DecodeError) : Reader α := fun _ => .error e

/-- Takes one marker byte. -/
def marker : Reader Marker
  | [] => .error .missingMarker
  | b :: bs => .ok (Marker.ofByte b, bs)

/-- Takes exactly `n` bytes. -/
def take (n : Nat) : Reader (List UInt8) := fun bs =>
  if (bs.take n).length = n then .ok (bs.take n, bs.drop n) else .error .missingData

/-- Takes the bytes, if any, that hold a length or an unsigned number. -/
def field : Field → Reader Nat
  | .here n => pure n
  | .after width => return beValue (← take width)

/-- Takes a byte string whose length stands in the field. -/
def counted (len : Field) : Reader (List UInt8) := do
  take (← field len)

/-- Runs a step `n` times on a running state. -/
def iterate {σ : Type} (step : σ → Reader σ) : Nat → σ → Reader σ
  | 0, s => pure s
  | n + 1, s => do iterate step n (← step s)

end Reader

open Reader

/-- Refuses a value of a wrong kind. What belongs to its head is read first, and
a text or byte string whole. -/
def refuse {α : Type} : Marker → Reader α
  | .nil | .bool _ | .negative _ => fail .malformed
  | .unsigned len | .array len | .map len | .ext len => do
    let _ ← field len
    fail .malformed
  | .signed width | .float width => do
    let _ ← take width
    fail .malformed
  | .str len => do
    let bs ← counted len
    if (Text.ofBytes? bs).isSome then fail .malformed else fail .notUtf8
  | .bin len => do
    let _ ← counted len
    fail .malformed
  | .reserved => fail .wrongMarker

/-- A text, as a text or as a byte string. -/
def readText : Reader String := do
  match ← marker with
  | .str len =>
    match Text.ofBytes? (← counted len) with
    | some s => pure s
    | none => fail .notUtf8
  | .bin len =>
    match Text.ofBytes? (← counted len) with
    | some s => pure s
    | none => fail .malformed
  | m => refuse m

/-- One entry of the data, put into the entries so far. -/
def readEntry (p : Payload) : Reader Payload := do
  let key ← readText
  let value ← readText
  return p.insert key value

/-- The data of an event: nil or a map of texts. -/
def readData : Reader (Option Payload) := do
  match ← marker with
  | .nil => pure none
  | .map len => return some (← iterate readEntry (← field len) Payload.empty)
  | m => refuse m

/-- A number in the range of message numbers. -/
def readId : Reader Int64 := do
  match ← marker with
  | .unsigned value =>
    let n ← field value
    if n < 0x8000000000000000 then pure (Int64.ofInt n) else fail .malformed
  | .negative i => pure (Int64.ofInt i)
  | .signed width => return Int64.ofInt (twosComplement (← take width))
  | .float width =>
    let _ ← take width
    fail .malformed
  | .nil | .bool _ => fail .malformed
  | _ => fail .wrongMarker

/-- What an entry of a packed message is about. -/
inductive FieldName where
  | kind
  | data
  | id
  | unknown
  deriving DecidableEq, Repr

/-- The names of the fields, as bytes. -/
def FieldName.ofBytes (bs : List UInt8) : FieldName :=
  if bs = Text.bytes "Type" then .kind
  else if bs = Text.bytes "Data" then .data
  else if bs = Text.bytes "ID" then .id
  else .unknown

/-- The positions of the fields, which may stand for their names. -/
def FieldName.ofIndex : Nat → FieldName
  | 0 => .kind
  | 1 => .data
  | 2 => .id
  | _ => .unknown

/-- The key of an entry: a name as text or bytes, or a position. -/
def readKey : Reader FieldName := do
  match ← marker with
  | .str len | .bin len => return FieldName.ofBytes (← counted len)
  | .unsigned value => return FieldName.ofIndex (← field value)
  | m => refuse m

/-- Takes one value, whatever it is. `nested` takes a value inside it, and is
absent where no further nesting is allowed. -/
def skipOne (nested : Option (Reader Unit)) : Reader Unit := do
  match ← marker with
  | .nil | .bool _ | .negative _ => pure ()
  | .unsigned value => let _ ← field value
  | .signed width | .float width => let _ ← take width
  | .str len | .bin len => let _ ← counted len
  | .array len =>
    let n ← field len
    match nested with
    | none => fail .tooDeep
    | some inner => iterate (fun _ => inner) n ()
  | .map len =>
    let n ← field len
    match nested with
    | none => fail .tooDeep
    | some inner =>
      let entry : Unit → Reader Unit := fun _ => do
        inner
        inner
      iterate entry n ()
  | .ext len =>
    let n ← field len
    match nested with
    | none => fail .tooDeep
    | some _ => let _ ← take (n + 1)
  | .reserved => fail .wrongMarker

/-- Takes one value that nests at most `depth` deep. -/
def skip : Nat → Reader Unit
  | 0 => skipOne none
  | depth + 1 => skipOne (some (skip depth))

/-- How deep the value of an unknown field may nest. -/
def maxDepth : Nat := 1022

/-- The fields of a message that have been read so far. -/
structure Fields where
  kind : Option String := none
  data : Option (Option Payload) := none
  id : Option Int64 := none

/-- One entry of a packed message. A field may stand there once. -/
def readField (f : Fields) : Reader Fields := do
  match ← readKey with
  | .kind =>
    if f.kind.isSome then fail .malformed
    else return { f with kind := some (← readText) }
  | .data =>
    if f.data.isSome then fail .malformed
    else return { f with data := some (← readData) }
  | .id =>
    if f.id.isSome then fail .malformed
    else return { f with id := some (← readId) }
  | .unknown =>
    skip maxDepth
    return f

/-- The message with these fields. Only the kind has to be there. -/
def Fields.toMessage (f : Fields) : Reader Message :=
  match f.kind with
  | none => fail .malformed
  | some kind => pure ⟨kind, f.data.getD none, f.id.getD 0⟩

/-- A message as a list of `n` fields; fields at the end may be missing. -/
def readSequence (n : Nat) : Reader Message := do
  if n = 0 then fail .malformed
  else
    let kind ← readText
    let data ← if n ≥ 2 then readData else pure none
    let id ← if n ≥ 3 then readId else pure 0
    if n > 3 then fail .tooManyFields else pure ⟨kind, data, id⟩

/-- A message in either form. -/
def readMessage : Reader Message := do
  match ← marker with
  | .map len => (← iterate readField (← field len) {}).toMessage
  | .array len => readSequence (← field len)
  | m => refuse m

/-- The message that a payload holds. Bytes after it do not count. -/
def decode (payload : List UInt8) : Except DecodeError Message :=
  (readMessage payload).map (·.1)

end HookRelay.Wire
