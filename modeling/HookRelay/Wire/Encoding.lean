import HookRelay.Message
import HookRelay.Wire.BigEndian
/-!
The packed form of a message: a map of the three entries `Type`, `Data` and
`ID`, in this order, every number, text and count in its shortest form.

A header holds a length in at most 32 bits. Texts and maps that are longer have no
packed form, and what is given for them here stands for nothing; no frame has room
for them.
-/

namespace HookRelay.Wire

/-- The shortest form of a number that is not negative. -/
def encodeNat (n : Nat) : List UInt8 :=
  if n < 0x80 then [UInt8.ofNat n]
  else if n < 0x100 then 0xcc :: beBytes 1 n
  else if n < 0x10000 then 0xcd :: beBytes 2 n
  else if n < 0x100000000 then 0xce :: beBytes 4 n
  else 0xcf :: beBytes 8 n

/-- The shortest form of the negative number `-(n + 1)`; its bytes are the two's
complement. -/
def encodeNegSucc (n : Nat) : List UInt8 :=
  if n < 0x20 then [UInt8.ofNat (0xff - n)]
  else if n < 0x80 then 0xd0 :: beBytes 1 (0xff - n)
  else if n < 0x8000 then 0xd1 :: beBytes 2 (0xffff - n)
  else if n < 0x80000000 then 0xd2 :: beBytes 4 (0xffffffff - n)
  else 0xd3 :: beBytes 8 (0xffffffffffffffff - n)

/-- The shortest form of a number. -/
def encodeInt : Int → List UInt8
  | .ofNat n => encodeNat n
  | .negSucc n => encodeNegSucc n

/-- The shortest header of a text of `n` bytes, for `n` below 2^32. -/
def textHeader (n : Nat) : List UInt8 :=
  if n < 0x20 then [UInt8.ofNat (0xa0 + n)]
  else if n < 0x100 then 0xd9 :: beBytes 1 n
  else if n < 0x10000 then 0xda :: beBytes 2 n
  else 0xdb :: beBytes 4 n

/-- The shortest form of a text. -/
def encodeText (s : String) : List UInt8 :=
  textHeader (Text.bytes s).length ++ Text.bytes s

/-- The shortest header of a map of `n` entries, for `n` below 2^32. -/
def mapHeader (n : Nat) : List UInt8 :=
  if n < 0x10 then [UInt8.ofNat (0x80 + n)]
  else if n < 0x10000 then 0xde :: beBytes 2 n
  else 0xdf :: beBytes 4 n

/-- An entry of the data: its key, then its value. -/
def encodeEntry (e : String × String) : List UInt8 :=
  encodeText e.1 ++ encodeText e.2

/-- The data as a map in key order, or nil. -/
def encodeData : Option Payload → List UInt8
  | none => [0xc0]
  | some p => mapHeader p.entries.length ++ p.entries.flatMap encodeEntry

/-- The packed form of a message. -/
def encode (m : Message) : List UInt8 :=
  mapHeader 3 ++
    (encodeText "Type" ++ encodeText m.kind) ++
    (encodeText "Data" ++ encodeData m.data) ++
    (encodeText "ID" ++ encodeInt m.id.toInt)

end HookRelay.Wire
