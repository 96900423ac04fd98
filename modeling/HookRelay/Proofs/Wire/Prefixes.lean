import HookRelay.Proofs.Wire.RoundTrip
/-!
What a reader answers is decided by the bytes that it has looked at. Bytes behind them
can only help a reader that has come to their end, so no proper beginning of a packed
message is a packed message, and none is mistaken for bytes that cannot be one.
-/

namespace HookRelay.Wire

/-- Whether it is an end of the bytes that is complained about. -/
def DecodeError.isTruncation : DecodeError → Bool
  | .missingMarker | .missingData => true
  | .wrongMarker | .malformed | .notUtf8 | .tooManyFields | .tooDeep => false

namespace Reader

/-- Bytes that come later change neither what the reader takes nor what it objects to. -/
structure IsSequential {α : Type} (x : Reader α) : Prop where
  ok : ∀ {bs a rest}, x bs = .ok (a, rest) → ∀ more, x (bs ++ more) = .ok (a, rest ++ more)
  error : ∀ {bs e}, x bs = .error e → e.isTruncation = false →
    ∀ more, x (bs ++ more) = .error e

namespace IsSequential

variable {α β σ : Type}

protected theorem pure (a : α) : IsSequential (pure a : Reader α) where
  ok h more := by
    cases h
    rfl
  error h := by cases h

protected theorem fail (e : DecodeError) : IsSequential (fail e : Reader α) where
  ok h := by cases h
  error h _ more := by
    cases h
    rfl

protected theorem bind {x : Reader α} {f : α → Reader β} (hx : IsSequential x)
    (hf : ∀ a, IsSequential (f a)) : IsSequential (x >>= f) where
  ok h more := by
    obtain ⟨a, bs', hfirst, hthen⟩ := bind_eq_ok_iff.mp h
    rw [bind_of_ok (hx.ok hfirst more)]
    exact (hf a).ok hthen more
  error {bs e} h he more := by
    rw [bind_apply] at h ⊢
    cases hfirst : x bs with
    | error e' =>
        rw [hfirst] at h
        cases h
        rw [hx.error hfirst he more]
    | ok p =>
        rw [hfirst] at h
        rw [hx.ok hfirst more]
        exact (hf p.1).error h he more

protected theorem marker : IsSequential marker where
  ok {bs a rest} h more := by
    obtain ⟨b, rfl, hb⟩ := marker_eq_ok_iff.mp h
    exact marker_eq_ok_iff.mpr ⟨b, rfl, hb⟩
  error {bs e} h he more := by
    cases bs with
    | nil =>
        cases h
        cases he
    | cons b bs => cases h

protected theorem take (n : Nat) : IsSequential (take n) where
  ok {bs a rest} h more := by
    obtain ⟨rfl, hlen⟩ := take_eq_ok_iff.mp h
    exact take_eq_ok_iff.mpr ⟨List.append_assoc _ _ _, hlen⟩
  error {bs e} h he more := by
    unfold Reader.take at h
    split at h
    · cases h
    · cases h
      cases he

protected theorem field (f : Field) : IsSequential (field f) := by
  cases f with
  | here n => exact .pure n
  | after width => exact .bind (.take width) fun bs => .pure (beValue bs)

protected theorem counted (len : Field) : IsSequential (counted len) :=
  .bind (.field len) .take

protected theorem iterate {step : σ → Reader σ} (hstep : ∀ s, IsSequential (step s)) (n : Nat)
    (s : σ) : IsSequential (iterate step n s) := by
  induction n generalizing s with
  | zero => exact .pure s
  | succ n ih => exact .bind (hstep s) ih

end IsSequential

end Reader

open Reader

variable {α : Type}

theorem refuse_isSequential (mk : Marker) : IsSequential (refuse mk : Reader α) := by
  cases mk with
  | nil | bool | negative | reserved => exact .fail _
  | unsigned len | array len | map len | ext len => exact .bind (.field len) fun _ => .fail _
  | signed width | float width => exact .bind (.take width) fun _ => .fail _
  | bin len => exact .bind (.counted len) fun _ => .fail _
  | str len =>
      refine .bind (.counted len) fun bs => ?_
      split
      · exact .fail _
      · exact .fail _

theorem readText_isSequential : IsSequential readText := by
  refine .bind .marker fun mk => ?_
  cases mk with
  | str len | bin len =>
      refine .bind (.counted len) fun bs => ?_
      split
      · exact .pure _
      · exact .fail _
  | _ => exact refuse_isSequential _

theorem readEntry_isSequential (p : Payload) : IsSequential (readEntry p) :=
  .bind readText_isSequential fun _ => .bind readText_isSequential fun _ => .pure _

theorem readData_isSequential : IsSequential readData := by
  refine .bind .marker fun mk => ?_
  cases mk with
  | nil => exact .pure none
  | map len =>
      exact .bind (.field len) fun n => .bind (.iterate readEntry_isSequential n _) fun _ => .pure _
  | _ => exact refuse_isSequential _

theorem readId_isSequential : IsSequential readId := by
  refine .bind .marker fun mk => ?_
  cases mk with
  | unsigned value =>
      refine .bind (.field value) fun n => ?_
      split
      · exact .pure _
      · exact .fail _
  | negative i => exact .pure _
  | signed width => exact .bind (.take width) fun _ => .pure _
  | float width => exact .bind (.take width) fun _ => .fail _
  | nil | bool | str | bin | array | map | ext | reserved => exact .fail _

theorem readKey_isSequential : IsSequential readKey := by
  refine .bind .marker fun mk => ?_
  cases mk with
  | str len | bin len => exact .bind (.counted len) fun _ => .pure _
  | unsigned value => exact .bind (.field value) fun _ => .pure _
  | _ => exact refuse_isSequential _

/-- One level of skipping. What is too deep is found once the length is there. -/
theorem skipOne_isSequential {nested : Option (Reader Unit)}
    (hnested : ∀ inner ∈ nested, IsSequential inner) : IsSequential (skipOne nested) := by
  refine .bind .marker fun mk => ?_
  cases mk with
  | nil | bool | negative => exact .pure ()
  | unsigned value => exact .bind (.field value) fun _ => .pure ()
  | signed width | float width => exact .bind (.take width) fun _ => .pure ()
  | str len | bin len => exact .bind (.counted len) fun _ => .pure ()
  | array len =>
      refine .bind (.field len) fun n => ?_
      cases nested with
      | none => exact .fail _
      | some inner => exact .iterate (fun _ => hnested inner rfl) n ()
  | map len =>
      refine .bind (.field len) fun n => ?_
      cases nested with
      | none => exact .fail _
      | some inner =>
          have hinner := hnested inner rfl
          exact .iterate (fun _ => .bind hinner fun _ => hinner) n ()
  | ext len =>
      refine .bind (.field len) fun n => ?_
      cases nested with
      | none => exact .fail _
      | some inner => exact .bind (.take (n + 1)) fun _ => .pure ()
  | reserved => exact .fail _

theorem skip_isSequential (depth : Nat) : IsSequential (skip depth) := by
  induction depth with
  | zero => exact skipOne_isSequential nofun
  | succ depth ih =>
      refine skipOne_isSequential fun inner hinner => ?_
      cases hinner
      exact ih

theorem readField_isSequential (f : Fields) : IsSequential (readField f) := by
  refine .bind readKey_isSequential fun name => ?_
  cases name with
  | kind =>
      dsimp only
      split
      · exact .fail _
      · exact .bind readText_isSequential fun _ => .pure _
  | data =>
      dsimp only
      split
      · exact .fail _
      · exact .bind readData_isSequential fun _ => .pure _
  | id =>
      dsimp only
      split
      · exact .fail _
      · exact .bind readId_isSequential fun _ => .pure _
  | unknown => exact .bind (skip_isSequential maxDepth) fun _ => .pure f

theorem toMessage_isSequential (f : Fields) : IsSequential f.toMessage := by
  unfold Fields.toMessage
  split
  · exact .fail _
  · exact .pure _

theorem readSequence_isSequential (n : Nat) : IsSequential (readSequence n) := by
  match n with
  | 0 => exact .fail _
  | 1 => exact .bind readText_isSequential fun _ => .pure _
  | 2 =>
      exact .bind readText_isSequential fun _ => .bind readData_isSequential fun _ => .pure _
  | n + 3 =>
      rw [readSequence_add_three]
      refine .bind readText_isSequential fun _ => .bind readData_isSequential fun _ =>
        .bind readId_isSequential fun _ => ?_
      split
      · exact .pure _
      · exact .fail _

theorem readMessage_isSequential : IsSequential readMessage := by
  refine .bind .marker fun mk => ?_
  cases mk with
  | map len =>
      exact .bind (.field len) fun n =>
        .bind (.iterate readField_isSequential n {}) toMessage_isSequential
  | array len => exact .bind (.field len) readSequence_isSequential
  | _ => exact refuse_isSequential _

variable {p : List UInt8} {m : Message}

theorem decode_append (h : ∀ e, decode p = .error e → e.isTruncation = false)
    (more : List UInt8) : decode (p ++ more) = decode p := by
  unfold decode at h ⊢
  cases hread : readMessage p with
  | error e =>
      rw [hread] at h
      rw [readMessage_isSequential.error hread (h e rfl)]
  | ok x => rw [readMessage_isSequential.ok hread, Except.map, Except.map]

theorem readMessage_encode (h : IsPackable m) : readMessage (encode m) = .ok (m, []) := by
  have hread := readMessage_reads (packed_encode h) []
  rwa [List.append_nil, message_ofMessage] at hread

/-- A packed message that is cut off is neither a message nor anything else that is wrong. -/
theorem isTruncation_of_cut {left : List UInt8} (hm : IsPackable m) (hcut : encode m = p ++ left)
    (hleft : left ≠ []) : ∃ e, decode p = .error e ∧ e.isTruncation = true := by
  have hwhole := readMessage_encode hm
  rw [hcut] at hwhole
  unfold decode
  cases hread : readMessage p with
  | ok x =>
      -- Then the rest of the message would be left over in front of nothing.
      obtain ⟨m', rest⟩ := x
      rw [readMessage_isSequential.ok hread] at hwhole
      have hrest : rest ++ left = [] := congrArg Prod.snd (Except.ok.inj hwhole)
      exact absurd (List.append_eq_nil_iff.mp hrest).2 hleft
  | error e =>
      refine ⟨e, rfl, ?_⟩
      by_contra htruncation
      rw [readMessage_isSequential.error hread (Bool.eq_false_iff.mpr htruncation)] at hwhole
      cases hwhole

/-- Where the bytes do not end too early, they decide what is decoded, whatever comes behind
them. So a message that can be sent in a frame is not decoded from fewer bytes than all of
its payload, and of those it is only said that they end. -/
theorem decode_decided_by_prefix :
    (∀ p more, decode p ≠ .error .missingMarker → decode p ≠ .error .missingData →
      decode (p ++ more) = decode p) ∧
    (∀ m maxLen frame, encodeFrame m maxLen = .ok frame →
      decode (frame.drop 2) = .ok m ∧
        ∀ p, p <+: frame.drop 2 → p ≠ frame.drop 2 →
          decode p = .error .missingMarker ∨ decode p = .error .missingData) := by
  constructor
  · intro p more hmarker hdata
    refine decode_append (fun e he => ?_) more
    cases e with
    | missingMarker => exact absurd he hmarker
    | missingData => exact absurd he hdata
    | wrongMarker | malformed | notUtf8 | tooManyFields | tooDeep => rfl
  · intro m maxLen frame hframe
    have hwhole := decode_of_encodeFrame hframe []
    rw [List.append_nil] at hwhole
    refine ⟨hwhole, ?_⟩
    rintro p ⟨left, hcut⟩ hne
    obtain ⟨-, hmax, hbytes⟩ := encodeFrame_eq_ok_iff.mp hframe
    have hpayload : frame.drop 2 = encode m := by
      rw [hbytes, List.drop_left' (length_beBytes 2 _)]
    have hleft : left ≠ [] := by
      rintro rfl
      rw [List.append_nil] at hcut
      exact hne hcut
    have hpackable : IsPackable m := by
      apply isPackable_of_length
      rw [maxPayload] at hmax
      omega
    obtain ⟨e, he, htruncation⟩ :=
      isTruncation_of_cut hpackable (hpayload.symm.trans hcut.symm) hleft
    cases e with
    | missingMarker => exact .inl he
    | missingData => exact .inr he
    | wrongMarker | malformed | notUtf8 | tooManyFields | tooDeep => cases htruncation

/-- A kind that is no text and a whole message, with another byte behind each of them, and a
heartbeat that is cut off inside a name. -/
theorem decode_decided_by_prefix_heartbeat :
    let frame := (encodeFrame .ping maxPayload).toOption.getD []
    let cutOff := (frame.drop 2).take 9
    let bad : List UInt8 := [0x81, 0xa4, 0x54, 0x79, 0x70, 0x65, 0xa1, 0xff]
    let good : List UInt8 := [0x91, 0xa1, 0x6b]
    decode (bad ++ [0xc1]) = .error .notUtf8 ∧
      decode (good ++ [0xc1]) = .ok ⟨"k", none, 0⟩ ∧
      (decode cutOff = .error .missingMarker ∨ decode cutOff = .error .missingData) := by
  intro frame cutOff bad good
  obtain ⟨hdecided, hcut⟩ := decode_decided_by_prefix
  have hbad : decode bad = .error .notUtf8 := by decide +kernel
  have hgood : decode good = .ok ⟨"k", none, 0⟩ := by decide +kernel
  have hframe : encodeFrame .ping maxPayload = .ok frame := by decide +kernel
  refine ⟨?_, ?_, (hcut .ping maxPayload frame hframe).2 cutOff ?_ (by decide +kernel)⟩
  · rw [hdecided bad [0xc1] (by rw [hbad]; decide) (by rw [hbad]; decide), hbad]
  · rw [hdecided good [0xc1] (by rw [hgood]; nofun) (by rw [hgood]; nofun), hgood]
  · exact List.take_prefix 9 _

end HookRelay.Wire
