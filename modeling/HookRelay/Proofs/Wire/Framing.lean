import HookRelay.Proofs.Wire.RoundTrip
import HookRelay.Wire.Received

namespace HookRelay.Wire

/-- Bytes that are the frames of these messages, one after another. -/
inductive Framed : List Message → List UInt8 → Prop
  | nil : Framed [] []
  | concat {ms : List Message} {bs frame : List UInt8} {m : Message} {maxLen : Nat} :
      Framed ms bs → encodeFrame m maxLen = .ok frame → Framed (ms ++ [m]) (bs ++ frame)

/-- Bytes at which a frame starts that does not end there. -/
def IsFragment (part : List UInt8) : Prop :=
  ∃ m maxLen left, left ≠ [] ∧ encodeFrame m maxLen = .ok (part ++ left)

variable {m : Message} {maxLen : Nat} {frame part left rest : List UInt8}

theorem frame_ne_nil (h : encodeFrame m maxLen = .ok frame) : frame ≠ [] := by
  obtain ⟨-, -, rfl⟩ := encodeFrame_eq_ok_iff.mp h
  intro hnil
  have hlen := congrArg List.length hnil
  rw [List.length_append, length_beBytes, List.length_nil] at hlen
  omega

theorem isFragment_nil : IsFragment [] := by
  have h : encodeFrame .ping maxPayload = .ok (beBytes 2 (encode .ping).length ++ encode .ping) :=
    encodeFrame_eq_ok_iff.mpr ⟨by decide, by decide, rfl⟩
  exact ⟨.ping, maxPayload, _, frame_ne_nil h, h⟩

theorem exists_of_encodeFrame (h : encodeFrame m maxLen = .ok frame) :
    ∃ hi lo, frame = hi :: lo :: encode m ∧ beValue [hi, lo] = (encode m).length ∧
      (encode m).length ≤ maxPayload := by
  obtain ⟨-, hmax, rfl⟩ := encodeFrame_eq_ok_iff.mp h
  obtain ⟨hi, lo, hlength⟩ : ∃ hi lo, beBytes 2 (encode m).length = [hi, lo] :=
    ⟨_, _, rfl⟩
  refine ⟨hi, lo, by rw [hlength]; rfl, ?_, hmax⟩
  rw [← hlength, beValue_beBytes, Nat.mod_eq_of_lt]
  rw [maxPayload] at hmax
  omega

theorem scan_frame {cap : Nat} (h : encodeFrame m maxLen = .ok frame)
    (hcap : (encode m).length ≤ cap) : scan cap (frame ++ rest) = .frame (encode m) rest := by
  obtain ⟨hi, lo, rfl, hvalue, -⟩ := exists_of_encodeFrame h
  simp only [List.cons_append, scan, hvalue]
  rw [if_neg (Nat.not_lt.mpr hcap), List.take_left, List.drop_left, if_pos rfl]

theorem scan_frame_self {cap : Nat} (h : encodeFrame m maxLen = .ok frame)
    (hcap : (encode m).length ≤ cap) : scan cap frame = .frame (encode m) [] := by
  have hscan := @scan_frame _ _ _ [] _ h hcap
  rwa [List.append_nil] at hscan

theorem scan_of_isFragment (h : IsFragment part) :
    ∃ e, scan maxPayload part = .incomplete e := by
  obtain ⟨m, maxLen, left, hleft, hframe⟩ := h
  obtain ⟨hi, lo, hbytes, hvalue, hmax⟩ := exists_of_encodeFrame hframe
  match part, hbytes with
  | [], _ => exact ⟨_, rfl⟩
  | [_], _ => exact ⟨_, rfl⟩
  | hi' :: lo' :: bs, hbytes =>
      obtain ⟨rfl, rfl, hpayload⟩ : hi' = hi ∧ lo' = lo ∧ bs ++ left = encode m := by
        simpa using hbytes
      have hshort : bs.length < (encode m).length := by
        have hpos := List.length_pos_iff.mpr hleft
        rw [← hpayload, List.length_append]
        omega
      refine ⟨.earlyEnd, ?_⟩
      simp only [scan, hvalue]
      rw [if_neg (Nat.not_lt.mpr hmax), if_neg]
      rw [List.length_take]
      omega

theorem received_of_scan_frame {bs payload : List UInt8}
    (h : scan maxPayload bs = .frame payload rest) :
    (received bs).1 = (decode payload).toOption.toList ++ (received rest).1 := by
  rw [received]
  split
  · next h' =>
    rw [h] at h'
    cases h'
    rfl
  · next h' => exact absurd h (h' payload rest)

theorem received_frame (h : encodeFrame m maxLen = .ok frame) :
    (received (frame ++ rest)).1 = m :: (received rest).1 := by
  have hmax := (encodeFrame_eq_ok_iff.mp h).2.1
  rw [received_of_scan_frame (scan_frame h hmax), decode_encode_of_encodeFrame h]
  rfl

theorem received_of_isFragment (h : IsFragment part) : (received part).1 = [] := by
  obtain ⟨e, hscan⟩ := scan_of_isFragment h
  rw [received]
  split
  · next h' =>
    rw [hscan] at h'
    cases h'
  · rfl

theorem received_framed {ms : List Message} {bs : List UInt8} (h : Framed ms bs) :
    (received (bs ++ rest)).1 = ms ++ (received rest).1 := by
  induction h generalizing rest with
  | nil => rfl
  | concat _ hframe ih =>
      rw [List.append_assoc, ih, received_frame hframe, List.append_assoc]
      rfl

theorem received_framed_append {ms : List Message} {bs : List UInt8} (h : Framed ms bs)
    (hpart : IsFragment part) : (received (bs ++ part)).1 = ms := by
  rw [received_framed h, received_of_isFragment hpart, List.append_nil]

end HookRelay.Wire
