import HookRelay.Proofs.Wire.Skipping

namespace HookRelay.Wire

open Reader

theorem Reads.bind_pure {α β : Type} {r : Reader α} {f : Value → Except DecodeError α}
    (h : Reads r f) (g : α → β) :
    Reads (r >>= fun a => pure (g a)) fun v => f v >>= fun a => pure (g a) := by
  intro v bs hv rest
  rw [bind_apply, h hv rest]
  simp only
  cases f v <;> rfl

theorem TakesValue.bind_pure {α β : Type} {r : Reader α} (h : TakesValue r) (g : α → β) :
    TakesValue (r >>= fun a => pure (g a)) := by
  intro bs b rest hb
  obtain ⟨a, rest', ha, hb⟩ := bind_eq_ok_iff.mp hb
  cases hb
  exact h ha

theorem readField_reads (f : Fields) : ReadsEntry (readField f) (Value.assign f) := by
  intro k v bs bs' hk hv rest
  simp only [readField, bind_apply, readKey_reads hk, Value.assign]
  cases k.fieldName with
  | error e => rfl
  | ok name =>
      cases name with
      | kind =>
          cases f.kind.isSome with
          | true => rfl
          | false => exact readText_reads.bind_pure (fun s => { f with kind := some s }) hv rest
      | data => 
          cases f.data.isSome with
          | true => rfl
          | false => exact readData_reads.bind_pure (fun d => { f with data := some d }) hv rest
      | id =>
          cases f.id.isSome with
          | true => rfl
          | false => exact readId_reads.bind_pure (fun i => { f with id := some i }) hv rest
      | unknown =>
          have hskip := (skip_reads maxDepth).bind_pure (fun _ => f) hv rest
          refine hskip.trans ?_
          simp only [within]
          split <;> rfl

theorem readField_takesEntry (f : Fields) : TakesEntry (readField f) := by
  intro bs f' rest h
  obtain ⟨name, bs₁, hkey, hvalue⟩ := bind_eq_ok_iff.mp h
  obtain ⟨k, used, rfl, hk⟩ := readKey_takesValue hkey
  have htakes : ∃ v used', bs₁ = used' ++ rest ∧ Packed v used' := by
    cases name with
    | kind =>
        cases hkind : f.kind.isSome with
        | true => simp [hkind] at hvalue
        | false =>
            simp only [hkind] at hvalue
            exact readText_takesValue.bind_pure _ hvalue
    | data =>
        cases hdata : f.data.isSome with
        | true => simp [hdata] at hvalue
        | false =>
            simp only [hdata] at hvalue
            exact readData_takesValue.bind_pure _ hvalue
    | id =>
        cases hid : f.id.isSome with
        | true => simp [hid] at hvalue
        | false =>
            simp only [hid] at hvalue
            exact readId_takesValue.bind_pure _ hvalue
    | unknown => exact (skip_takesValue maxDepth).bind_pure _ hvalue
  obtain ⟨v, used', rfl, hv⟩ := htakes
  exact ⟨k, v, used, used', rfl, hk, hv⟩

theorem toMessage_apply (f : Fields) (rest : List UInt8) :
    f.toMessage rest = (Value.ofFields f).map (·, rest) := by
  simp only [Fields.toMessage, Value.ofFields]
  cases f.kind <;> rfl

theorem readSequence_one : readSequence 1 = (do return ⟨← readText, none, 0⟩) := rfl

theorem readSequence_two : readSequence 2 = (do return ⟨← readText, ← readData, 0⟩) := rfl

theorem readSequence_add_three (n : Nat) :
    readSequence (n + 3) = (do
      let m : Message := ⟨← readText, ← readData, ← readId⟩
      if n = 0 then return m else fail .tooManyFields) := by
  cases n with
  | zero => rfl
  | succ n => simp [readSequence]

theorem readSequence_apply {vs : List Value} {body : List UInt8} (h : PackedList vs body)
    (rest : List UInt8) :
    readSequence vs.length (body ++ rest) = (Value.array vs).message.map (·, rest) := by
  match vs, h with
  | [], .nil => rfl
  | [kind], .cons hkind .nil =>
      simp only [List.length_singleton, readSequence_one, List.append_nil, bind_apply,
        readText_reads hkind, Value.message]
      cases kind.text <;> rfl
  | [kind, data], .cons hkind (.cons hdata .nil) =>
      change readSequence 2 _ = _
      simp only [readSequence_two, List.append_nil, List.append_assoc, bind_apply,
        readText_reads hkind, Value.message]
      cases kind.text with
      | error e => rfl
      | ok kind =>
          simp only [Except.map, readData_reads hdata]
          cases data.data <;> rfl
  | kind :: data :: id :: more, .cons hkind (.cons hdata (.cons hid hmore)) =>
      simp only [List.length_cons, readSequence_add_three, List.append_assoc, bind_apply,
        readText_reads hkind, Value.message]
      cases kind.text with
      | error e => rfl
      | ok kind =>
          simp only [Except.map, readData_reads hdata]
          cases data.data with
          | error e => rfl
          | ok data =>
              simp only [readId_reads hid]
              cases id.number with
              | error e => rfl
              | ok id =>
                  cases hmore with
                  | nil => rfl
                  | cons hv hvs => rfl

theorem exists_list_of_readSequence {n : Nat} {m : Message} {bs rest : List UInt8}
    (h : readSequence n bs = .ok (m, rest)) :
    ∃ vs used, vs.length = n ∧ bs = used ++ rest ∧ PackedList vs used := by
  match n with
  | 0 => cases h
  | 1 =>
      obtain ⟨kind, used, rfl, hkind⟩ := readText_takesValue.bind_pure _ h
      exact ⟨[kind], used ++ [], rfl, by simp, .cons hkind .nil⟩
  | 2 =>
      rw [readSequence_two] at h
      obtain ⟨_, bs₁, hread, hothers⟩ := bind_eq_ok_iff.mp h
      obtain ⟨kind, used, rfl, hkind⟩ := readText_takesValue hread
      obtain ⟨data, used', rfl, hdata⟩ := readData_takesValue.bind_pure _ hothers
      exact ⟨[kind, data], used ++ (used' ++ []), rfl, by simp, .cons hkind (.cons hdata .nil)⟩
  | n + 3 =>
      rw [readSequence_add_three] at h
      obtain ⟨_, bs₁, hread₁, hothers₁⟩ := bind_eq_ok_iff.mp h
      obtain ⟨_, bs₂, hread₂, hothers₂⟩ := bind_eq_ok_iff.mp hothers₁
      obtain ⟨_, bs₃, hread₃, hend⟩ := bind_eq_ok_iff.mp hothers₂
      obtain ⟨kind, used, rfl, hkind⟩ := readText_takesValue hread₁
      obtain ⟨data, used', rfl, hdata⟩ := readData_takesValue hread₂
      obtain ⟨id, used'', rfl, hid⟩ := readId_takesValue hread₃
      cases n with
      | zero =>
          cases hend
          exact ⟨[kind, data, id], used ++ (used' ++ (used'' ++ [])), rfl, by simp,
            .cons hkind (.cons hdata (.cons hid .nil))⟩
      | succ n => simp at hend

theorem readMessage_reads : Reads readMessage Value.message := by
  intro v bs h rest
  obtain ⟨mk, tail, hmk, ho⟩ := h.exists_opened rest
  have hrefuse : (refuse mk : Reader Message) tail = _ := ho.refuse
  refine (bind_of_ok hmk).trans ?_
  cases ho with
  | @map es body tail len hlen hes =>
      refine (bind_of_ok hlen).trans ?_
      rw [bind_apply, iterate_entries readField_reads hes {} rest]
      simp only [Value.message]
      cases es.foldlM Value.assign {} with
      | error e => rfl
      | ok f => exact toMessage_apply f rest
  | array hlen hvs => exact (bind_of_ok hlen).trans (readSequence_apply hvs rest)
  | nil | bool | unsigned | negative | signed | float | str | bin | ext => exact hrefuse

theorem readMessage_takesValue : TakesValue readMessage := by
  intro bs m rest h
  obtain ⟨mk, tail, hmk, h⟩ := bind_eq_ok_iff.mp h
  cases mk with
  | map len =>
      obtain ⟨n, tail', hlen, h⟩ := bind_eq_ok_iff.mp h
      obtain ⟨f, rest', hall, h⟩ := bind_eq_ok_iff.mp h
      obtain rfl : rest' = rest := by
        rw [toMessage_apply] at h
        cases hf : Value.ofFields f <;> rw [hf] at h <;> cases h
        rfl
      obtain ⟨es, body, rfl, rfl, hes⟩ := exists_entries_of_iterate readField_takesEntry hall
      exact ⟨.map es, Opened.exists_packed (.map hlen hes) hmk⟩
  | array len =>
      obtain ⟨n, tail', hlen, h⟩ := bind_eq_ok_iff.mp h
      obtain ⟨vs, body, rfl, rfl, hvs⟩ := exists_list_of_readSequence h
      exact ⟨.array vs, Opened.exists_packed (.array hlen hvs) hmk⟩
  | _ => exact absurd h refuse_ne_ok

theorem decode_of_packed {v : Value} {bs : List UInt8} (h : Packed v bs) (rest : List UInt8) :
    decode (bs ++ rest) = v.message := by
  rw [decode, readMessage_reads h rest]
  cases v.message <;> rfl

theorem exists_packed_of_decode {payload : List UInt8} {m : Message}
    (h : decode payload = .ok m) :
    ∃ v used rest, payload = used ++ rest ∧ Packed v used ∧ v.message = .ok m := by
  rw [decode] at h
  cases hread : readMessage payload with
  | error e =>
      rw [hread] at h
      cases h
  | ok p =>
      obtain ⟨m', rest⟩ := p
      obtain ⟨v, used, rfl, hv⟩ := readMessage_takesValue hread
      refine ⟨v, used, rest, rfl, hv, ?_⟩
      rw [← decode_of_packed hv rest, decode]
      exact h

/-- Decoding is the tree semantics of the format, for messages and for errors. -/
theorem decode_agrees_with_trees :
    (∀ v bs, Packed v bs → ∀ rest, decode (bs ++ rest) = v.message) ∧
    (∀ payload m, decode payload = .ok m →
      ∃ v bs rest, payload = bs ++ rest ∧ Packed v bs ∧ v.message = .ok m) :=
  ⟨fun _ _ h rest => decode_of_packed h rest, fun _ _ h => exists_packed_of_decode h⟩

theorem decode_agrees_with_trees_array :
    let v : Value := .array [.str [0x6b], .nil, .signed (-1)]
    let bs : List UInt8 := [0x93, 0xa1, 0x6b, 0xc0, 0xff]
    Packed v bs ∧ decode (bs ++ [0xc1]) = .ok ⟨"k", none, -1⟩ := by
  intro v bs
  have hkind : Packed (.str [0x6b]) [0xa1, 0x6b] := .str (.held (by decide))
  have hid : Packed (.signed (-1)) [0xff] := .negative (b := 0xff) (by decide)
  have hv : Packed v bs :=
    .array (.held (b := 0x93) (by decide)) (.cons hkind (.cons .nil (.cons hid .nil)))
  exact ⟨hv, decode_agrees_with_trees.1 v bs hv [0xc1]⟩

end HookRelay.Wire
