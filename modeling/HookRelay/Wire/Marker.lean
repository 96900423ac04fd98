import HookRelay.Wire.BigEndian

namespace HookRelay.Wire

/-- Where a length or an unsigned number stands: in the marker, or in the
`width` bytes after it. -/
inductive Field where
  | here (n : Nat)
  | after (width : Nat)
  deriving DecidableEq, Repr

/-- The kinds of packed values. For `str`, `bin`, `array`, `map` and `ext` the
field is the number of bytes, elements or entries. -/
inductive Marker where
  | nil
  | bool (b : Bool)
  | unsigned (value : Field)
  | negative (i : Int)
  | signed (width : Nat)
  | float (width : Nat)
  | str (len : Field)
  | bin (len : Field)
  | array (len : Field)
  | map (len : Field)
  | ext (len : Field)
  | reserved
  deriving DecidableEq, Repr

/-- Every byte is a marker; `0xc1` is the one without a kind. -/
def Marker.ofByte (b : UInt8) : Marker :=
  let n := b.toNat
  if n < 0x80 then .unsigned (.here n)
  else if n < 0x90 then .map (.here (n - 0x80))
  else if n < 0xa0 then .array (.here (n - 0x90))
  else if n < 0xc0 then .str (.here (n - 0xa0))
  else if n ≥ 0xe0 then .negative ((n : Int) - 256)
  else
    match n with
    | 0xc0 => .nil
    | 0xc2 => .bool false
    | 0xc3 => .bool true
    | 0xc4 => .bin (.after 1)
    | 0xc5 => .bin (.after 2)
    | 0xc6 => .bin (.after 4)
    | 0xc7 => .ext (.after 1)
    | 0xc8 => .ext (.after 2)
    | 0xc9 => .ext (.after 4)
    | 0xca => .float 4
    | 0xcb => .float 8
    | 0xcc => .unsigned (.after 1)
    | 0xcd => .unsigned (.after 2)
    | 0xce => .unsigned (.after 4)
    | 0xcf => .unsigned (.after 8)
    | 0xd0 => .signed 1
    | 0xd1 => .signed 2
    | 0xd2 => .signed 4
    | 0xd3 => .signed 8
    | 0xd4 => .ext (.here 1)
    | 0xd5 => .ext (.here 2)
    | 0xd6 => .ext (.here 4)
    | 0xd7 => .ext (.here 8)
    | 0xd8 => .ext (.here 16)
    | 0xd9 => .str (.after 1)
    | 0xda => .str (.after 2)
    | 0xdb => .str (.after 4)
    | 0xdc => .array (.after 2)
    | 0xdd => .array (.after 4)
    | 0xde => .map (.after 2)
    | 0xdf => .map (.after 4)
    | _ => .reserved

end HookRelay.Wire
