import HookRelay.Proofs.Wire.Deadlines
import HookRelay.Proofs.Wire.Framing
import Mathlib.Tactic.SplitIfs

namespace HookRelay

namespace Wire

/-- The bytes of the shortest header of a text of `n` bytes. -/
def textHeaderSize (n : Nat) : Nat :=
  if n < 32 then 1 else if n < 256 then 2 else if n < 65536 then 3 else 5

/-- The bytes of the shortest header of a map of `n` entries. -/
def mapHeaderSize (n : Nat) : Nat :=
  if n < 16 then 1 else if n < 65536 then 3 else 5

def textSize (s : String) : Nat := textHeaderSize s.utf8ByteSize + s.utf8ByteSize

def numberSize (i : Int) : Nat :=
  if -32 ≤ i ∧ i < 128 then 1
  else if -128 ≤ i ∧ i < 256 then 2
  else if -32768 ≤ i ∧ i < 65536 then 3
  else if -2147483648 ≤ i ∧ i < 4294967296 then 5
  else 9

def dataSize : Option Payload → Nat
  | none => 1
  | some p => mapHeaderSize p.entries.length +
      (p.entries.map fun e => textSize e.1 + textSize e.2).sum

/-- The header of a map of three entries, and each of them with its name. -/
def packedSize (m : Message) : Nat :=
  1 + (5 + textSize m.kind) + (5 + dataSize m.data) + (3 + numberSize m.id.toInt)

variable {m : Message} {maxLen ms : Nat} {frame : List UInt8}

theorem length_textHeader (n : Nat) : (textHeader n).length = textHeaderSize n := by
  unfold textHeader textHeaderSize
  split
  · rfl
  · split
    · rfl
    · split <;> rfl

theorem length_mapHeader (n : Nat) : (mapHeader n).length = mapHeaderSize n := by
  unfold mapHeader mapHeaderSize
  split
  · rfl
  · split <;> rfl

theorem length_bytes (s : String) : (Text.bytes s).length = s.utf8ByteSize := rfl

theorem length_encodeText (s : String) : (encodeText s).length = textSize s := by
  rw [encodeText, List.length_append, length_textHeader, length_bytes, textSize]

theorem length_encodeNat (n : Nat) : (encodeNat n).length = numberSize n := by
  unfold encodeNat numberSize
  split_ifs <;> first | rfl | omega

theorem length_encodeNegSucc (n : Nat) : (encodeNegSucc n).length = numberSize (.negSucc n) := by
  rw [Int.negSucc_eq]
  unfold encodeNegSucc numberSize
  split_ifs <;> first | rfl | omega

theorem length_encodeInt (i : Int) : (encodeInt i).length = numberSize i := by
  cases i with
  | ofNat n => exact length_encodeNat n
  | negSucc n => exact length_encodeNegSucc n

theorem length_flatMap_encodeEntry (entries : List (String × String)) :
    (entries.flatMap encodeEntry).length =
      (entries.map fun e => textSize e.1 + textSize e.2).sum := by
  rw [List.length_flatMap]
  refine congrArg List.sum (List.map_congr_left fun e _ => ?_)
  rw [encodeEntry, List.length_append, length_encodeText, length_encodeText]

theorem length_encodeData (data : Option Payload) : (encodeData data).length = dataSize data := by
  cases data with
  | none => rfl
  | some p =>
      rw [encodeData, List.length_append, length_mapHeader, length_flatMap_encodeEntry, dataSize]

theorem length_encode (m : Message) : (encode m).length = packedSize m := by
  have htype : (encodeText "Type").length = 5 := by decide
  have hdata : (encodeText "Data").length = 5 := by decide
  have hid : (encodeText "ID").length = 3 := by decide
  simp only [encode, List.length_append, length_encodeText m.kind, length_encodeData,
    length_encodeInt, htype, hdata, hid, packedSize]
  rfl

namespace Inbound

variable {s t : Inbound} {coming : List Arrival} {buffered : List UInt8} {closed : Bool}
  {now deadline : Nat} {limit : Duration} {answer : Except FrameError Message}

/-- What a read answers that is not about the clock, it has from bytes at the front. -/
def IsFromFront (maxLen : Nat) (bs : List UInt8) (answer : Except FrameError Message) : Prop :=
  (∃ limit, answer = .error (.deadline limit)) ∨
    ∃ front, front <+: bs ∧ answer = (readFront maxLen front).1

theorem isFromFront_of_poll (h : poll maxLen s = some (answer, t)) :
    IsFromFront maxLen s.left answer := by
  rw [poll_eq] at h
  split at h
  · cases h
    exact .inr ⟨s.buffered, List.prefix_append _ _, rfl⟩
  · cases h

theorem isFromFront_await : IsFromFront maxLen (buffered ++ arriving coming)
    (await limit deadline maxLen now buffered closed coming).1 := by
  fun_induction await limit deadline maxLen now buffered closed coming with
  | case1 now buffered closed ms coming hlt s answer hanswer =>
      have hfront := isFromFront_of_poll hanswer
      rwa [settle_left] at hfront
  | case2 now buffered closed ms coming hlt s hnone ih => exact ih
  | case3 => exact .inl ⟨_, rfl⟩
  | case4 now buffered closed bs coming ih => rwa [List.append_assoc] at ih
  | case5 now buffered closed coming ih => exact ih
  | case6 => exact .inl ⟨_, rfl⟩

theorem isFromFront_read (s : Inbound) (ms maxLen : Nat) :
    IsFromFront maxLen s.left (s.read ms maxLen).1 := by
  unfold read
  split
  · next hanswer => exact isFromFront_of_poll hanswer
  · split
    · exact .inl ⟨_, rfl⟩
    · simp only
      rw [← settle_left]
      split
      · next hanswer => exact isFromFront_of_poll hanswer
      · exact isFromFront_await

end Inbound

theorem declared_eq_of_isPrefix {front bs : List UInt8} {len len' : Nat} (h : front <+: bs)
    (hfront : declared front = some len') (hbs : declared bs = some len) : len' = len := by
  obtain ⟨rest, rfl⟩ := h
  match front, hfront with
  | hi :: lo :: front, hfront => exact Option.some.inj (hfront.symm.trans hbs)

theorem read_ne_tooLong {s : Inbound} (h : encodeFrame m maxLen = .ok frame)
    (hleft : frame <+: s.left) (ms len max : Nat) :
    (s.read ms maxLen).1 ≠ .error (.tooLong len max) := by
  obtain ⟨hi, lo, rfl, hvalue, -⟩ := exists_of_encodeFrame h
  obtain ⟨rest, hrest⟩ := hleft
  have hdeclared : declared s.left = some (encode m).length := by
    rw [← hrest, ← hvalue]
    rfl
  intro hlong
  rcases s.isFromFront_read ms maxLen with ⟨limit, hlimit⟩ | ⟨front, hfront, hanswer⟩
  · cases hlong.symm.trans hlimit
  · obtain ⟨len', hlen', hlt⟩ :=
      (readFront_aligned maxLen front).oversized_iff.mp ⟨len, max, hanswer.symm.trans hlong⟩
    rw [declared_eq_of_isPrefix hfront hlen' hdeclared] at hlt
    exact absurd (encodeFrame_eq_ok_iff.mp h).1 (Nat.not_le.mpr hlt)

/-- The frame of a message whose size is within both limits, and what can be relied on. -/
structure IsFrame (m : Message) (maxLen : Nat) (frame : List UInt8) : Prop where
  length : frame.length = 2 + packedSize m
  /-- The two bytes in front hold the size, and the payload is behind them. -/
  parts : beValue (frame.take 2) = packedSize m ∧ frame.drop 2 = encode m
  /-- No greater limit changes the frame. -/
  wider : ∀ larger, maxLen ≤ larger → encodeFrame m larger = .ok frame
  /-- A read with this limit does not refuse it, however it arrives. -/
  accepted : ∀ (s : Inbound) ms len max, frame <+: s.left →
    (s.read ms maxLen).1 ≠ .error (.tooLong len max)

theorem isFrame_of_encodeFrame (h : encodeFrame m maxLen = .ok frame) : IsFrame m maxLen frame := by
  have hlimits := encodeFrame_eq_ok_iff.mp h
  obtain ⟨hi, lo, rfl, hvalue, -⟩ := exists_of_encodeFrame h
  refine ⟨?_, ⟨hvalue.trans (length_encode m), rfl⟩, fun larger hle => ?_,
    fun s ms len max hleft => read_ne_tooLong h hleft ms len max⟩
  · rw [List.length_cons, List.length_cons, length_encode]
    omega
  · exact encodeFrame_eq_ok_iff.mpr ⟨Nat.le_trans hlimits.1 hle, hlimits.2⟩

/-- A message gets a frame exactly if its size is within both limits: its own and that of the
two bytes in front of the payload. -/
theorem encodeFrame_decided_by_size (m : Message) (maxLen : Nat) :
    (packedSize m ≤ min maxLen 65535 →
      ∃ frame, encodeFrame m maxLen = .ok frame ∧ IsFrame m maxLen frame) ∧
    (¬packedSize m ≤ min maxLen 65535 →
      encodeFrame m maxLen = .error (.tooLong (packedSize m) maxLen)) := by
  rw [Nat.le_min]
  refine ⟨fun ⟨hmax, hfits⟩ => ?_, fun hlong => ?_⟩
  · rw [← length_encode] at hmax hfits
    have hframe := encodeFrame_eq_ok_iff.mpr ⟨hmax, hfits, rfl⟩
    exact ⟨_, hframe, isFrame_of_encodeFrame hframe⟩
  · rw [encodeFrame, length_encode, if_pos]
    rw [maxPayload]
    omega

/-- A ping fits a limit of its size, and no smaller one. -/
theorem encodeFrame_ping_at_size :
    (encodeFrame .ping 21).isOk = true ∧
      encodeFrame .ping 20 = .error (.tooLong 21 20) := by
  constructor
  · obtain ⟨frame, hframe, -⟩ := (encodeFrame_decided_by_size .ping 21).1 (by decide)
    rw [hframe]
    rfl
  · exact (encodeFrame_decided_by_size .ping 20).2 (by decide)

end Wire

end HookRelay
