import HookRelay.Proofs.Payload
import HookRelay.Proofs.Wire.TreeSemantics
import HookRelay.Wire.Frame

namespace HookRelay.Wire

theorem beValue_beBytes (width n : Nat) : beValue (beBytes width n) = n % 256 ^ width := by
  induction width generalizing n with
  | zero => simp [beBytes, beValue, Nat.mod_one]
  | succ width ih =>
    have hbyte : (UInt8.ofNat (n % 256)).toNat = n % 256 := by simp
    rw [beBytes, beValue_concat, ih, hbyte, Nat.pow_succ, Nat.mul_comm (256 ^ width) 256,
      Nat.mod_mul]
    omega

theorem mem_fix {first size n : Nat} (h : n < size) :
    (UInt8.ofNat (first + n), n) ∈ Form.fix first size :=
  List.mem_map.mpr ⟨n, List.mem_range.mpr h, rfl⟩

theorem Form.head_wide {f : Form} {b : UInt8} {width n : Nat} (h : (b, width) ∈ f.wide)
    (hn : n < 256 ^ width) : f.Head n (b :: beBytes width n) := by
  have hhead : f.Head (beValue (beBytes width n)) (b :: beBytes width n) :=
    .wide (by rwa [length_beBytes])
  rwa [beValue_beBytes, Nat.mod_eq_of_lt hn] at hhead

theorem head_textHeader {n : Nat} (h : n < 2 ^ 32) : Form.str.Head n (textHeader n) := by
  unfold textHeader
  split
  · exact .held (mem_fix ‹_›)
  split
  · exact Form.head_wide (by decide) ‹_›
  split
  · exact Form.head_wide (by decide) ‹_›
  · exact Form.head_wide (by decide) h

theorem head_mapHeader {n : Nat} (h : n < 2 ^ 32) : Form.map.Head n (mapHeader n) := by
  unfold mapHeader
  split
  · exact .held (mem_fix ‹_›)
  split
  · exact Form.head_wide (by decide) ‹_›
  · exact Form.head_wide (by decide) h

theorem head_encodeNat {n : Nat} (h : n < 2 ^ 64) : Form.unsigned.Head n (encodeNat n) := by
  unfold encodeNat
  split
  · have hmem : (UInt8.ofNat (0 + n), n) ∈ Form.unsigned.held := mem_fix ‹_›
    rw [Nat.zero_add] at hmem
    exact .held hmem
  split
  · exact Form.head_wide (by decide) ‹_›
  split
  · exact Form.head_wide (by decide) ‹_›
  split
  · exact Form.head_wide (by decide) ‹_›
  · exact Form.head_wide (by decide) h

/-- In two's complement `-(n + 1)` is written as the `n`-th number from the top. -/
theorem twosComplement_beBytes {width n : Nat} (h : 2 * (n + 1) ≤ 256 ^ width) :
    twosComplement (beBytes width (256 ^ width - 1 - n)) = .negSucc n := by
  rw [twosComplement, beValue_beBytes, length_beBytes, Nat.pow_eq]
  generalize 256 ^ width = m at h
  have hnat : (m - 1 - n) % m = m - 1 - n := Nat.mod_eq_of_lt (by omega)
  have hint : ((m - 1 - n : Nat) : Int) % m = ((m - 1 - n : Nat) : Int) :=
    Int.emod_eq_of_lt (by omega) (by omega)
  rw [hnat, Int.bmod_def, hint, Int.negSucc_eq]
  split <;> omega

theorem packed_encodeNegSucc {n : Nat} (h : n < 2 ^ 63) :
    Packed (.signed (.negSucc n)) (encodeNegSucc n) := by
  have hwide {b : UInt8} {width : Nat} (hb : (b, width) ∈ signedMarkers)
      (hn : 2 * (n + 1) ≤ 256 ^ width) :
      Packed (.signed (.negSucc n)) (b :: beBytes width (256 ^ width - 1 - n)) := by
    rw [← twosComplement_beBytes hn]
    exact .signed (by rwa [length_beBytes])
  unfold encodeNegSucc
  split
  · have hn : (UInt8.ofNat (0xff - n)).toNat = 0xff - n := by
      simp
      omega
    have hpacked : Packed (.signed (((UInt8.ofNat (0xff - n)).toNat : Int) - 256))
        [UInt8.ofNat (0xff - n)] := .negative (by omega)
    have hvalue : ((UInt8.ofNat (0xff - n)).toNat : Int) - 256 = .negSucc n := by
      rw [hn, Int.negSucc_eq]
      omega
    rwa [hvalue] at hpacked
  split
  · exact hwide (by decide) (by omega)
  split
  · exact hwide (by decide) (by omega)
  split
  · exact hwide (by decide) (by omega)
  · exact hwide (by decide) (by omega)

theorem packed_encodeText {s : String} (h : (Text.bytes s).length < 2 ^ 32) :
    Packed (.str (Text.bytes s)) (encodeText s) :=
  .str (head_textHeader h)

namespace Value

/-- The tree of a number: it carries a sign only if it is negative. -/
def ofInt : Int → Value
  | .ofNat n => unsigned n
  | .negSucc n => signed (.negSucc n)

def ofEntry (e : String × String) : Value × Value := (str (Text.bytes e.1), str (Text.bytes e.2))

def ofData : Option Payload → Value
  | none => nil
  | some p => map (p.entries.map ofEntry)

/-- The tree of a message. -/
def ofMessage (m : Message) : Value :=
  map [(str (Text.bytes "Type"), str (Text.bytes m.kind)),
    (str (Text.bytes "Data"), ofData m.data), (str (Text.bytes "ID"), ofInt m.id.toInt)]

end Value

/-- A message whose texts and data are short enough for the counts of the format. -/
structure IsPackable (m : Message) : Prop where
  kind : (Text.bytes m.kind).length < 2 ^ 32
  count : ∀ p ∈ m.data, p.entries.length < 2 ^ 32
  texts : ∀ p ∈ m.data, ∀ e ∈ p.entries,
    (Text.bytes e.1).length < 2 ^ 32 ∧ (Text.bytes e.2).length < 2 ^ 32

theorem packed_encodeInt (id : Int64) : Packed (.ofInt id.toInt) (encodeInt id.toInt) := by
  have hlow : -2 ^ 63 ≤ id.toInt := id.le_toInt
  have hhigh : id.toInt < 2 ^ 63 := id.toInt_lt
  cases hid : id.toInt with
  | ofNat n =>
      rw [hid, Int.ofNat_eq_natCast] at hhigh
      exact .unsigned (head_encodeNat (by omega))
  | negSucc n =>
      rw [hid] at hlow
      exact packed_encodeNegSucc (by omega)

theorem packed_entries {entries : List (String × String)}
    (h : ∀ e ∈ entries, (Text.bytes e.1).length < 2 ^ 32 ∧ (Text.bytes e.2).length < 2 ^ 32) :
    PackedEntries (entries.map Value.ofEntry) (entries.flatMap encodeEntry) := by
  induction entries with
  | nil => exact .nil
  | cons e entries ih =>
      have he := h e (by simp)
      have hes := ih fun e' he' => h e' (by simp [he'])
      rw [List.map_cons, List.flatMap_cons, encodeEntry, List.append_assoc]
      exact .cons (packed_encodeText he.1) (packed_encodeText he.2) hes

theorem packed_encodeData {data : Option Payload}
    (hcount : ∀ p ∈ data, p.entries.length < 2 ^ 32)
    (htexts : ∀ p ∈ data, ∀ e ∈ p.entries,
      (Text.bytes e.1).length < 2 ^ 32 ∧ (Text.bytes e.2).length < 2 ^ 32) :
    Packed (.ofData data) (encodeData data) := by
  cases data with
  | none => exact .nil
  | some p =>
      refine .map ?_ (packed_entries (htexts p rfl))
      rw [List.length_map]
      exact head_mapHeader (hcount p rfl)

theorem packed_encode {m : Message} (h : IsPackable m) : Packed (.ofMessage m) (encode m) := by
  have hfields : PackedEntries
      [(.str (Text.bytes "Type"), .str (Text.bytes m.kind)),
        (.str (Text.bytes "Data"), .ofData m.data), (.str (Text.bytes "ID"), .ofInt m.id.toInt)]
      (encodeText "Type" ++ (encodeText m.kind ++ (encodeText "Data" ++ (encodeData m.data ++
        (encodeText "ID" ++ (encodeInt m.id.toInt ++ [])))))) :=
    .cons (packed_encodeText (by decide)) (packed_encodeText h.kind)
      (.cons (packed_encodeText (by decide)) (packed_encodeData h.count h.texts)
        (.cons (packed_encodeText (by decide)) (packed_encodeInt m.id) .nil))
  have hmessage : Packed (.ofMessage m) _ := .map (head_mapHeader (by simp)) hfields
  simpa [encode] using hmessage

theorem mapM_assignment_ofEntry (entries : List (String × String)) :
    (entries.map Value.ofEntry).mapM Value.assignment = .ok entries := by
  induction entries with
  | nil => rfl
  | cons e entries ih =>
      have he : Value.assignment (Value.ofEntry e) = .ok e := by
        simp [Value.assignment, Value.ofEntry, Value.text, bind, Except.bind, pure, Except.pure]
      rw [List.map_cons, List.mapM_cons, he, ih]
      rfl

theorem data_ofData (data : Option Payload) : (Value.ofData data).data = .ok data := by
  cases data with
  | none => rfl
  | some p =>
      rw [Value.ofData, Value.data, mapM_assignment_ofEntry]
      exact congrArg (fun p => Except.ok (some p)) p.ofList_entries

theorem number_ofInt (id : Int64) : (Value.ofInt id.toInt).number = .ok id := by
  have hrange : -2 ^ 63 ≤ id.toInt ∧ id.toInt < 2 ^ 63 := ⟨id.le_toInt, id.toInt_lt⟩
  have hin : Value.inRange id.toInt = .ok id := by
    rw [Value.inRange, if_pos hrange, Int64.ofInt_toInt]
  rw [← hin]
  cases id.toInt <;> rfl

theorem message_ofMessage (m : Message) : (Value.ofMessage m).message = .ok m := by
  have hkind : FieldName.ofBytes (Text.bytes "Type") = .kind := by decide
  have hdata : FieldName.ofBytes (Text.bytes "Data") = .data := by decide
  have hid : FieldName.ofBytes (Text.bytes "ID") = .id := by decide
  have htext : (Value.str (Text.bytes m.kind)).text = .ok m.kind := by simp [Value.text]
  simp only [Value.ofMessage, Value.message, List.foldlM_cons, List.foldlM_nil, Value.assign,
    Value.fieldName, hkind, hdata, hid, htext, data_ofData, number_ofInt]
  rfl

theorem decode_encode {m : Message} (h : IsPackable m) (rest : List UInt8) :
    decode (encode m ++ rest) = .ok m := by
  rw [decode_of_packed (packed_encode h), message_ofMessage]

theorem length_textHeader_pos (n : Nat) : 0 < (textHeader n).length := by
  unfold textHeader
  repeat' split
  all_goals simp

theorem length_lt_encodeText (s : String) : (Text.bytes s).length < (encodeText s).length := by
  have hheader := length_textHeader_pos (Text.bytes s).length
  rw [encodeText, List.length_append]
  omega

theorem count_le_flatMap_encodeEntry (entries : List (String × String)) :
    entries.length ≤ (entries.flatMap encodeEntry).length := by
  induction entries with
  | nil => simp
  | cons e entries ih =>
      have hkey := length_lt_encodeText e.1
      simp only [List.flatMap_cons, List.length_append, List.length_cons, encodeEntry]
      omega

theorem length_le_flatMap_encodeEntry {entries : List (String × String)} {e : String × String}
    (h : e ∈ entries) :
    (Text.bytes e.1).length + (Text.bytes e.2).length ≤
      (entries.flatMap encodeEntry).length := by
  induction entries with
  | nil => cases h
  | cons e' entries ih =>
      simp only [List.flatMap_cons, List.length_append]
      rcases List.mem_cons.mp h with rfl | h
      · have hkey := length_lt_encodeText e.1
        have hvalue := length_lt_encodeText e.2
        simp only [encodeEntry, List.length_append]
        omega
      · have hrest := ih h
        omega

theorem isPackable_of_length {m : Message} (h : (encode m).length < 2 ^ 32) : IsPackable m := by
  have hkind := length_lt_encodeText m.kind
  have hparts : (encodeText m.kind).length + (encodeData m.data).length ≤ (encode m).length := by
    simp only [encode, List.length_append]
    omega
  have hdata : ∀ p ∈ m.data,
      (p.entries.flatMap encodeEntry).length ≤ (encodeData m.data).length := by
    intro p hp
    rw [hp, encodeData, List.length_append]
    omega
  refine ⟨by omega, fun p hp => ?_, fun p hp e he => ?_⟩
  · have hcount := count_le_flatMap_encodeEntry p.entries
    have hp := hdata p hp
    omega
  · have hentry := length_le_flatMap_encodeEntry he
    have hp := hdata p hp
    omega

theorem encodeFrame_eq_ok_iff {m : Message} {maxLen : Nat} {frame : List UInt8} :
    encodeFrame m maxLen = .ok frame ↔
      (encode m).length ≤ maxLen ∧ (encode m).length ≤ maxPayload ∧
        frame = beBytes 2 (encode m).length ++ encode m := by
  simp only [encodeFrame]
  split
  · next h =>
    simp only [reduceCtorEq, false_iff]
    omega
  · next h =>
    simp only [Except.ok.injEq]
    constructor
    · rintro rfl
      exact ⟨by omega, by omega, rfl⟩
    · rintro ⟨-, -, rfl⟩
      rfl

theorem decode_of_encodeFrame {m : Message} {maxLen : Nat} {frame : List UInt8}
    (h : encodeFrame m maxLen = .ok frame) (rest : List UInt8) :
    decode (frame.drop 2 ++ rest) = .ok m := by
  obtain ⟨-, hmax, rfl⟩ := encodeFrame_eq_ok_iff.mp h
  have hpayload : (beBytes 2 (encode m).length ++ encode m).drop 2 = encode m :=
    List.drop_left' (length_beBytes 2 _)
  have hlen : (encode m).length < 2 ^ 32 := by
    rw [maxPayload] at hmax
    omega
  rw [hpayload]
  exact decode_encode (isPackable_of_length hlen) rest

theorem decode_encode_of_encodeFrame {m : Message} {maxLen : Nat} {frame : List UInt8}
    (h : encodeFrame m maxLen = .ok frame) : decode (encode m) = .ok m := by
  have hdecode := decode_of_encodeFrame h []
  obtain ⟨-, -, rfl⟩ := encodeFrame_eq_ok_iff.mp h
  rwa [List.append_nil, List.drop_left' (length_beBytes 2 _)] at hdecode

/-- A frame starts with the length of its payload, and its payload reads back as the
message, whatever comes after it. So a frame belongs to one message only, and data
without entries is not the same as no data. -/
theorem encodeFrame_round_trip {m : Message} {maxLen : Nat} {frame : List UInt8}
    (h : encodeFrame m maxLen = .ok frame) :
    (frame.take 2).length = 2 ∧ beValue (frame.take 2) = (frame.drop 2).length ∧
      (∀ rest, decode (frame.drop 2 ++ rest) = .ok m) ∧
      (∀ m' maxLen', encodeFrame m' maxLen' = .ok frame → m' = m) ∧
      (m.data = none → ∀ maxLen',
        encodeFrame { m with data := some Payload.empty } maxLen' ≠ .ok frame) := by
  have hinjective : ∀ m' maxLen', encodeFrame m' maxLen' = .ok frame → m' = m := by
    intro m' maxLen' h'
    have hdecode := decode_of_encodeFrame h' []
    rw [decode_of_encodeFrame h []] at hdecode
    exact (Except.ok.inj hdecode).symm
  obtain ⟨-, hmax, hframe⟩ := encodeFrame_eq_ok_iff.mp h
  have htake : frame.take 2 = beBytes 2 (encode m).length := by
    rw [hframe, List.take_left' (length_beBytes 2 _)]
  have hdrop : frame.drop 2 = encode m := by
    rw [hframe, List.drop_left' (length_beBytes 2 _)]
  refine ⟨?_, ?_, decode_of_encodeFrame h, hinjective, ?_⟩
  · rw [htake, length_beBytes]
  · rw [htake, hdrop, beValue_beBytes, Nat.mod_eq_of_lt]
    rw [maxPayload] at hmax
    omega
  · intro hnone maxLen' h'
    have hdata := congrArg Message.data (hinjective _ _ h')
    rw [hnone] at hdata
    cases hdata

theorem encodeFrame_round_trip_negative_id :
    let m : Message := ⟨"é", some (Payload.ofList [("k", "")]), -129⟩
    let payload := [0x83, 0xa4, 0x54, 0x79, 0x70, 0x65, 0xa2, 0xc3, 0xa9, 0xa4, 0x44, 0x61, 0x74,
      0x61, 0x81, 0xa1, 0x6b, 0xa0, 0xa2, 0x49, 0x44, 0xd1, 0xff, 0x7f]
    encodeFrame m 64 = .ok (0 :: 24 :: payload) ∧ decode (payload ++ [0xc1]) = .ok m := by
  intro m payload
  have h : encodeFrame m 64 = .ok (0 :: 24 :: payload) :=
    encodeFrame_eq_ok_iff.mpr ⟨by decide, by decide, by decide⟩
  exact ⟨h, (encodeFrame_round_trip h).2.2.1 [0xc1]⟩

end HookRelay.Wire
