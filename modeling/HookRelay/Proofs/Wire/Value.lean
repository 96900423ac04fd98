import Mathlib.Algebra.Order.Ring.Int
import HookRelay.Wire.Decoding
/-!
Packed values as trees. `Packed v bs` holds when the bytes are a packed form of
the tree, under any of the markers that can stand in front of it, and
`Value.message` is the message that a tree stands for. Its parts are looked at in
the order in which they travel, so the first problem is the answer.
-/

namespace HookRelay.Wire

/-- A packed value. A number keeps whether its marker is one for numbers with a
sign, because only the others can name a field. -/
inductive Value where
  | nil
  | bool (b : Bool)
  | unsigned (n : Nat)
  | signed (i : Int)
  | float (bytes : List UInt8)
  | str (bytes : List UInt8)
  | bin (bytes : List UInt8)
  | array (elements : List Value)
  | map (entries : List (Value × Value))
  | ext (tag : UInt8) (bytes : List UInt8)

/-- A family of markers for one kind of value, which all give a count. -/
structure Form where
  /-- The markers that hold a count themselves, with that count. -/
  held : List (UInt8 × Nat)
  /-- The markers with the count in the bytes after them, with its width. -/
  wide : List (UInt8 × Nat)

namespace Form

/-- Consecutive markers that hold the counts from 0 on. -/
def fix (first size : Nat) : List (UInt8 × Nat) :=
  (List.range size).map fun n => (UInt8.ofNat (first + n), n)

def unsigned : Form := ⟨fix 0x00 0x80, [(0xcc, 1), (0xcd, 2), (0xce, 4), (0xcf, 8)]⟩

def map : Form := ⟨fix 0x80 0x10, [(0xde, 2), (0xdf, 4)]⟩

def array : Form := ⟨fix 0x90 0x10, [(0xdc, 2), (0xdd, 4)]⟩

def str : Form := ⟨fix 0xa0 0x20, [(0xd9, 1), (0xda, 2), (0xdb, 4)]⟩

def bin : Form := ⟨[], [(0xc4, 1), (0xc5, 2), (0xc6, 4)]⟩

def ext : Form :=
  ⟨[(0xd4, 1), (0xd5, 2), (0xd6, 4), (0xd7, 8), (0xd8, 16)], [(0xc7, 1), (0xc8, 2), (0xc9, 4)]⟩

/-- The byte sequences that give a count under a marker of the form. -/
inductive Head (f : Form) : Nat → List UInt8 → Prop where
  | held {b : UInt8} {n : Nat} (h : (b, n) ∈ f.held) : f.Head n [b]
  | wide {b : UInt8} {bs : List UInt8} (h : (b, bs.length) ∈ f.wide) :
      f.Head (beValue bs) (b :: bs)

end Form

/-- The markers of numbers with a sign, with the widths of the numbers. -/
def signedMarkers : List (UInt8 × Nat) := [(0xd0, 1), (0xd1, 2), (0xd2, 4), (0xd3, 8)]

def floatMarkers : List (UInt8 × Nat) := [(0xca, 4), (0xcb, 8)]

mutual

/-- The bytes are a packed form of the value. -/
inductive Packed : Value → List UInt8 → Prop where
  | nil : Packed .nil [0xc0]
  | bool (b : Bool) : Packed (.bool b) [if b then 0xc3 else 0xc2]
  | unsigned {n : Nat} {head : List UInt8} (h : Form.unsigned.Head n head) :
      Packed (.unsigned n) head
  | negative {b : UInt8} (h : 0xe0 ≤ b.toNat) : Packed (.signed ((b.toNat : Int) - 256)) [b]
  | signed {b : UInt8} {bs : List UInt8} (h : (b, bs.length) ∈ signedMarkers) :
      Packed (.signed (twosComplement bs)) (b :: bs)
  | float {b : UInt8} {bs : List UInt8} (h : (b, bs.length) ∈ floatMarkers) :
      Packed (.float bs) (b :: bs)
  | str {bs head : List UInt8} (h : Form.str.Head bs.length head) : Packed (.str bs) (head ++ bs)
  | bin {bs head : List UInt8} (h : Form.bin.Head bs.length head) : Packed (.bin bs) (head ++ bs)
  | array {vs : List Value} {head body : List UInt8} (h : Form.array.Head vs.length head)
      (hvs : PackedList vs body) : Packed (.array vs) (head ++ body)
  | map {es : List (Value × Value)} {head body : List UInt8} (h : Form.map.Head es.length head)
      (hes : PackedEntries es body) : Packed (.map es) (head ++ body)
  | ext {tag : UInt8} {bs head : List UInt8} (h : Form.ext.Head bs.length head) :
      Packed (.ext tag bs) (head ++ tag :: bs)

/-- The bytes are packed forms of the values, one after another. -/
inductive PackedList : List Value → List UInt8 → Prop where
  | nil : PackedList [] []
  | cons {v : Value} {vs : List Value} {bs bss : List UInt8} (h : Packed v bs)
      (hs : PackedList vs bss) : PackedList (v :: vs) (bs ++ bss)

/-- The bytes are packed forms of keys and values in turn. -/
inductive PackedEntries : List (Value × Value) → List UInt8 → Prop where
  | nil : PackedEntries [] []
  | cons {k v : Value} {es : List (Value × Value)} {bs bs' bss : List UInt8} (hk : Packed k bs)
      (hv : Packed v bs') (hs : PackedEntries es bss) :
      PackedEntries ((k, v) :: es) (bs ++ (bs' ++ bss))

end

namespace Value

mutual

/-- How deep containers nest in a value. An extension counts as a container. -/
def depth : Value → Nat
  | array vs => depthList vs + 1
  | map es => depthEntries es + 1
  | ext _ _ => 1
  | _ => 0

def depthList : List Value → Nat
  | [] => 0
  | v :: vs => max (depth v) (depthList vs)

def depthEntries : List (Value × Value) → Nat
  | [] => 0
  | (k, v) :: es => max (max (depth k) (depth v)) (depthEntries es)

end

/-- Why a value cannot stand where another kind is expected. A text that is not
well-formed is reported as such even there. -/
def mismatch : Value → DecodeError
  | str bs => if (Text.ofBytes? bs).isSome then .malformed else .notUtf8
  | _ => .malformed

/-- The text that a value stands for. -/
def text : Value → Except DecodeError String
  | str bs => (Text.ofBytes? bs).elim (.error .notUtf8) .ok
  | bin bs => (Text.ofBytes? bs).elim (.error .malformed) .ok
  | v => .error v.mismatch

/-- The key and the value of an entry of the data. -/
def assignment (e : Value × Value) : Except DecodeError (String × String) :=
  return (← e.1.text, ← e.2.text)

/-- The data that a value stands for. The last value of a key counts. -/
def data : Value → Except DecodeError (Option Payload)
  | nil => .ok none
  | map es => return some (Payload.ofList (← es.mapM assignment))
  | v => .error v.mismatch

/-- The message number that a number stands for. -/
def inRange (i : Int) : Except DecodeError Int64 :=
  if -2 ^ 63 ≤ i ∧ i < 2 ^ 63 then .ok (Int64.ofInt i) else .error .malformed

def number : Value → Except DecodeError Int64
  | unsigned n => inRange n
  | signed i => inRange i
  | nil | bool _ | float _ => .error .malformed
  | _ => .error .wrongMarker

/-- The field that a key names, by its name or by its position. -/
def fieldName : Value → Except DecodeError FieldName
  | str bs | bin bs => .ok (FieldName.ofBytes bs)
  | unsigned n => .ok (FieldName.ofIndex n)
  | v => .error v.mismatch

/-- The fields of a message after one more entry. -/
def assign (f : Fields) (e : Value × Value) : Except DecodeError Fields := do
  match ← e.1.fieldName with
  | .kind =>
    if f.kind.isSome then throw .malformed
    else return { f with kind := some (← e.2.text) }
  | .data =>
    if f.data.isSome then throw .malformed
    else return { f with data := some (← e.2.data) }
  | .id =>
    if f.id.isSome then throw .malformed
    else return { f with id := some (← e.2.number) }
  | .unknown => if e.2.depth ≤ maxDepth then return f else throw .tooDeep

/-- The message with these fields. Data and number may be missing. -/
def ofFields (f : Fields) : Except DecodeError Message :=
  f.kind.elim (.error .malformed) fun kind => .ok ⟨kind, f.data.getD none, f.id.getD 0⟩

/-- The message that a tree stands for: a map from names to fields, or an array of
the fields. -/
def message : Value → Except DecodeError Message
  | map es => do ofFields (← es.foldlM assign {})
  | array [] => .error .malformed
  | array [kind] => do return ⟨← kind.text, none, 0⟩
  | array [kind, data] => do return ⟨← kind.text, ← data.data, 0⟩
  | array (kind :: data :: id :: more) => do
    let m := ⟨← kind.text, ← data.data, ← id.number⟩
    if more.isEmpty then return m else throw .tooManyFields
  | v => .error v.mismatch

end Value

end HookRelay.Wire
