import HookRelay.Duration
import HookRelay.Wire.Encoding
import HookRelay.Wire.Decoding

namespace HookRelay

/-- Why bytes could not be read or written. -/
inductive StreamError where
  /-- The stream ended where a frame would start, or inside its length. -/
  | unexpectedEnd
  /-- The stream ended inside a payload. -/
  | earlyEnd
  /-- The other side is gone. -/
  | brokenPipe
  /-- The operating system reported an error number. -/
  | os (code : Nat)
  /-- Something else, in words. -/
  | other (text : String)
  deriving DecidableEq, Repr

/-- What the operating system calls its error numbers. -/
def osErrorName : Nat → String
  | 2 => "No such file or directory"
  | 13 => "Permission denied"
  | 20 => "Not a directory"
  | 21 => "Is a directory"
  | 32 => "Broken pipe"
  | 98 => "Address already in use"
  | 99 => "Cannot assign requested address"
  | 101 => "Network is unreachable"
  | 104 => "Connection reset by peer"
  | 111 => "Connection refused"
  | code => "Unknown error " ++ toString code

def StreamError.text : StreamError → String
  | .unexpectedEnd => "unexpected end of file"
  | .earlyEnd => "early eof"
  | .brokenPipe => "broken pipe"
  | .os code => osErrorName code ++ " (os error " ++ toString code ++ ")"
  | .other text => text

/-- Why a frame could not be read or written. -/
inductive FrameError where
  | stream (e : StreamError)
  /-- It did not come to an end in time. -/
  | deadline (limit : Duration)
  /-- Its payload has more bytes than allowed. -/
  | tooLong (len max : Nat)
  /-- Its payload is not a message. -/
  | undecodable (e : Wire.DecodeError)
  deriving DecidableEq, Repr

namespace FrameError

def text : FrameError → String
  | stream e => "i/o error: " ++ e.text
  | deadline limit => "deadline of " ++ limit.text ++ " elapsed"
  | tooLong len max =>
    "message is too long: " ++ toString len ++ " bytes (max " ++ toString max ++ ")"
  | undecodable _ => "failed to decode message"

/-- The error behind this one, in words. -/
def cause : FrameError → Option String
  | stream e => some e.text
  | _ => none

end FrameError

namespace Wire

/-- The greatest length that two bytes hold. -/
def maxPayload : Nat := 65535

/-- The frame of a message, if its payload has at most `maxLen` bytes and its
length fits the two bytes in front. -/
def encodeFrame (m : Message) (maxLen : Nat) : Except FrameError (List UInt8) :=
  let payload := encode m
  if payload.length > maxLen ∨ payload.length > maxPayload then
    .error (.tooLong payload.length maxLen)
  else .ok (beBytes 2 payload.length ++ payload)

/-- What the front of a byte stream amounts to. -/
inductive Scan where
  /-- A whole frame with this payload, and the bytes after it. -/
  | frame (payload rest : List UInt8)
  /-- A length above the limit, and the bytes after the length. -/
  | oversized (len : Nat) (rest : List UInt8)
  /-- Not yet a whole frame, which starts inside the length or the payload. -/
  | incomplete (e : StreamError)
  deriving DecidableEq, Repr

/-- Looks for a frame at the front of the bytes. A length above the limit is
found before any of its payload is there. -/
def scan (maxLen : Nat) : List UInt8 → Scan
  | hi :: lo :: bs =>
    let len := beValue [hi, lo]
    if len > maxLen then .oversized len bs
    else if (bs.take len).length = len then .frame (bs.take len) (bs.drop len)
    else .incomplete .earlyEnd
  | _ => .incomplete .unexpectedEnd

end Wire

end HookRelay
