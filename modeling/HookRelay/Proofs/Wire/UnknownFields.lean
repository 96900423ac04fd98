import HookRelay.Proofs.Intake
import HookRelay.Proofs.Wire.RoundTrip

namespace HookRelay.Wire

section Fold

variable {ε σ α : Type} {f : σ → α → Except ε σ} {a : α} {as bs : List α} {s t : σ}

theorem foldlM_cons_eq_ok_iff :
    (a :: as).foldlM f s = .ok t ↔ ∃ s', f s a = .ok s' ∧ as.foldlM f s' = .ok t := by
  rw [List.foldlM_cons]
  cases f s a with
  | error e =>
      constructor
      · intro h
        cases h
      · rintro ⟨s', h, -⟩
        cases h
  | ok s' =>
      constructor
      · intro h
        exact ⟨s', rfl, h⟩
      · rintro ⟨_, ⟨⟩, h⟩
        exact h

theorem foldlM_perm
    (hswap : ∀ s a b s₁ s₂, f s a = .ok s₁ → f s₁ b = .ok s₂ →
      ∃ s₁', f s b = .ok s₁' ∧ f s₁' a = .ok s₂)
    (h : as.Perm bs) (hfold : as.foldlM f s = .ok t) : bs.foldlM f s = .ok t := by
  induction h generalizing s with
  | nil => exact hfold
  | cons a _ ih =>
      obtain ⟨s', hs', hrest⟩ := foldlM_cons_eq_ok_iff.mp hfold
      exact foldlM_cons_eq_ok_iff.mpr ⟨s', hs', ih hrest⟩
  | swap a b as =>
      obtain ⟨s₁, hs₁, hrest⟩ := foldlM_cons_eq_ok_iff.mp hfold
      obtain ⟨s₂, hs₂, hrest⟩ := foldlM_cons_eq_ok_iff.mp hrest
      obtain ⟨s₁', hs₁', hs₂'⟩ := hswap s b a s₁ s₂ hs₁ hs₂
      exact foldlM_cons_eq_ok_iff.mpr ⟨s₁', hs₁',
        foldlM_cons_eq_ok_iff.mpr ⟨s₂, hs₂', hrest⟩⟩
  | trans _ _ ih ih' => exact ih' (ih hfold)

end Fold

namespace Value

/-- The keys that name no field: texts and byte strings, well-formed or not, other than the
names, and positions behind the last field. -/
def IsUnknownKey : Value → Prop
  | str bs | bin bs => bs ≠ Text.bytes "Type" ∧ bs ≠ Text.bytes "Data" ∧
    bs ≠ Text.bytes "ID"
  | unsigned n => 3 ≤ n
  | _ => False

/-- What an entry does to the fields that have been read so far. -/
inductive Assigns (f : Fields) (e : Value × Value) : Fields → Prop
  | kind {s : String} :
      e.1.fieldName = .ok .kind → f.kind = none → e.2.text = .ok s →
      Assigns f e { f with kind := some s }
  | data {d : Option Payload} :
      e.1.fieldName = .ok .data → f.data = none → e.2.data = .ok d →
      Assigns f e { f with data := some d }
  | id {i : Int64} :
      e.1.fieldName = .ok .id → f.id = none → e.2.number = .ok i →
      Assigns f e { f with id := some i }
  | unknown : e.1.fieldName = .ok .unknown → e.2.depth ≤ maxDepth → Assigns f e f

variable {f f' f₁ f₂ : Fields} {e a b : Value × Value} {k : Value}
  {es es' extra : List (Value × Value)}

theorem ofBytes_eq_unknown_iff {bs : List UInt8} :
    FieldName.ofBytes bs = .unknown ↔
      bs ≠ Text.bytes "Type" ∧ bs ≠ Text.bytes "Data" ∧ bs ≠ Text.bytes "ID" := by
  unfold FieldName.ofBytes
  split
  · next h => simp [h]
  · next hkind =>
    split
    · next h => simp [h]
    · next hdata =>
      split
      · next h => simp [h]
      · next hid => simp [hkind, hdata, hid]

theorem ofIndex_eq_unknown_iff {n : Nat} : FieldName.ofIndex n = .unknown ↔ 3 ≤ n := by
  match n with
  | 0 | 1 | 2 => simp [FieldName.ofIndex]
  | n + 3 => simp [FieldName.ofIndex]

theorem fieldName_eq_unknown_iff : k.fieldName = .ok .unknown ↔ k.IsUnknownKey := by
  cases k with
  | str | bin => simp only [fieldName, IsUnknownKey, Except.ok.injEq, ofBytes_eq_unknown_iff]
  | unsigned => simp only [fieldName, IsUnknownKey, Except.ok.injEq, ofIndex_eq_unknown_iff]
  | nil | bool | signed | float | array | map | ext => simp [fieldName, IsUnknownKey]

theorem assigns_of_assign (h : assign f e = .ok f') : Assigns f e f' := by
  unfold assign at h
  obtain ⟨name, hname, h⟩ := exists_of_bind_eq_ok h
  cases name with
  | kind =>
      simp only at h
      split at h
      · cases h
      · next hfree =>
        obtain ⟨s, hvalue, h⟩ := exists_of_bind_eq_ok h
        cases h
        exact .kind hname (by simpa using hfree) hvalue
  | data =>
      simp only at h
      split at h
      · cases h
      · next hfree =>
        obtain ⟨d, hvalue, h⟩ := exists_of_bind_eq_ok h
        cases h
        exact .data hname (by simpa using hfree) hvalue
  | id =>
      simp only at h
      split at h
      · cases h
      · next hfree =>
        obtain ⟨i, hvalue, h⟩ := exists_of_bind_eq_ok h
        cases h
        exact .id hname (by simpa using hfree) hvalue
  | unknown =>
      simp only at h
      split at h
      · next hdepth =>
        cases h
        exact .unknown hname hdepth
      · cases h

theorem Assigns.assign (h : Assigns f e f') : assign f e = .ok f' := by
  cases h with
  | kind hname hfree hvalue | data hname hfree hvalue | id hname hfree hvalue =>
      simp only [Value.assign, hname, hfree, hvalue]
      rfl
  | unknown hname hdepth =>
      simp only [Value.assign, hname]
      exact if_pos hdepth

/-- Two entries can change places: they set different fields, or none. -/
theorem Assigns.swap (ha : Assigns f a f₁) (hb : Assigns f₁ b f₂) :
    ∃ f₁', Assigns f b f₁' ∧ Assigns f₁' a f₂ := by
  cases ha with
  | kind hname hfree hvalue =>
      cases hb with
      | kind _ hset => cases hset
      | data hname' hfree' hvalue' =>
          exact ⟨_, .data hname' hfree' hvalue', .kind hname hfree hvalue⟩
      | id hname' hfree' hvalue' =>
          exact ⟨_, .id hname' hfree' hvalue', .kind hname hfree hvalue⟩
      | unknown hname' hdepth => exact ⟨_, .unknown hname' hdepth, .kind hname hfree hvalue⟩
  | data hname hfree hvalue =>
      cases hb with
      | data _ hset => cases hset
      | kind hname' hfree' hvalue' =>
          exact ⟨_, .kind hname' hfree' hvalue', .data hname hfree hvalue⟩
      | id hname' hfree' hvalue' =>
          exact ⟨_, .id hname' hfree' hvalue', .data hname hfree hvalue⟩
      | unknown hname' hdepth => exact ⟨_, .unknown hname' hdepth, .data hname hfree hvalue⟩
  | id hname hfree hvalue =>
      cases hb with
      | id _ hset => cases hset
      | kind hname' hfree' hvalue' =>
          exact ⟨_, .kind hname' hfree' hvalue', .id hname hfree hvalue⟩
      | data hname' hfree' hvalue' =>
          exact ⟨_, .data hname' hfree' hvalue', .id hname hfree hvalue⟩
      | unknown hname' hdepth => exact ⟨_, .unknown hname' hdepth, .id hname hfree hvalue⟩
  | unknown hname hdepth => exact ⟨f₂, hb, .unknown hname hdepth⟩

theorem foldlM_assign_perm (h : es.Perm es') (hfold : es.foldlM assign f = .ok f') :
    es'.foldlM assign f = .ok f' := by
  refine foldlM_perm (fun f a b f₁ f₂ ha hb => ?_) h hfold
  obtain ⟨f₁', hb', ha'⟩ := (assigns_of_assign ha).swap (assigns_of_assign hb)
  exact ⟨f₁', hb'.assign, ha'.assign⟩

/-- The entry is skipped, but it cannot be. -/
def IsTooDeep (e : Value × Value) : Prop := e.1.fieldName = .ok .unknown ∧ maxDepth < e.2.depth

instance (e : Value × Value) : Decidable (IsTooDeep e) := inferInstanceAs (Decidable (_ ∧ _))

theorem assign_of_isTooDeep (h : IsTooDeep e) : assign f e = .error .tooDeep := by
  obtain ⟨hname, hdepth⟩ := h
  simp only [assign, hname]
  exact if_neg (Nat.not_le.mpr hdepth)

theorem not_isTooDeep_of_assigns (h : Assigns f e f') : ¬ IsTooDeep e := by
  intro hdeep
  have hassign := h.assign
  rw [assign_of_isTooDeep hdeep] at hassign
  cases hassign

theorem not_isTooDeep_of_foldlM (h : es.foldlM assign f = .ok f') :
    ∀ e ∈ es, ¬ IsTooDeep e := by
  induction es generalizing f with
  | nil => exact List.forall_mem_nil _
  | cons e es ih =>
      obtain ⟨f₁, hassign, hrest⟩ := foldlM_cons_eq_ok_iff.mp h
      have hhead := not_isTooDeep_of_assigns (assigns_of_assign hassign)
      exact List.forall_mem_cons.mpr ⟨hhead, ih hrest⟩

theorem foldlM_assign_unknown (h : ∀ e ∈ es, e.1.IsUnknownKey ∧ ¬ IsTooDeep e) (f : Fields) :
    es.foldlM assign f = .ok f := by
  induction es with
  | nil => rfl
  | cons e es ih =>
      obtain ⟨⟨hkey, hdeep⟩, hrest⟩ := List.forall_mem_cons.mp h
      have hname := fieldName_eq_unknown_iff.mpr hkey
      have hdepth : e.2.depth ≤ maxDepth := Nat.not_lt.mp fun hlt => hdeep ⟨hname, hlt⟩
      exact foldlM_cons_eq_ok_iff.mpr ⟨f, (Assigns.unknown hname hdepth).assign, ih hrest⟩

/-- Where all other entries are in order, one that nests too deeply is the problem. -/
theorem foldlM_assign_tooDeep
    (hfold : (es.filter (¬ IsTooDeep ·)).foldlM assign f = .ok f')
    (hdeep : ∃ e ∈ es, IsTooDeep e) :
    es.foldlM assign f = .error .tooDeep := by
  induction es generalizing f with
  | nil => simp at hdeep
  | cons e es ih =>
      rw [List.foldlM_cons]
      by_cases he : IsTooDeep e
      · rw [assign_of_isTooDeep he]
        rfl
      · rw [List.filter_cons_of_pos (by simpa using he)] at hfold
        obtain ⟨f₁, hassign, hrest⟩ := foldlM_cons_eq_ok_iff.mp hfold
        rw [hassign]
        refine ih hrest ?_
        simpa [he] using hdeep

theorem message_map_eq_ok_iff {m : Message} :
    (map es).message = .ok m ↔ ∃ f, es.foldlM assign {} = .ok f ∧ ofFields f = .ok m := by
  constructor
  · exact exists_of_bind_eq_ok
  · rintro ⟨f, hf, hm⟩
    rw [message, hf]
    exact hm

/-- The message of a map does not depend on the order of its entries, nor on entries of
unknown keys. -/
theorem message_map_perm {m : Message} (hm : (map es).message = .ok m)
    (hunknown : ∀ e ∈ extra, e.1.IsUnknownKey) (hperm : es'.Perm (es ++ extra)) :
    ((∀ e ∈ extra, e.2.depth ≤ maxDepth) → (map es').message = .ok m) ∧
      ((∃ e ∈ extra, maxDepth < e.2.depth) → (map es').message = .error .tooDeep) := by
  obtain ⟨f, hf, hfields⟩ := message_map_eq_ok_iff.mp hm
  -- All that is not too deep gives the fields of the message, in any order.
  have hskipped :
      ∀ e ∈ extra.filter (¬ IsTooDeep ·), e.1.IsUnknownKey ∧ ¬ IsTooDeep e := by
    intro e he
    obtain ⟨hmem, hshallow⟩ := List.mem_filter.mp he
    exact ⟨hunknown e hmem, of_decide_eq_true hshallow⟩
  have hfilter : es.filter (¬ IsTooDeep ·) = es :=
    List.filter_eq_self.mpr fun e he => decide_eq_true (not_isTooDeep_of_foldlM hf e he)
  have hshallow : (es'.filter (¬ IsTooDeep ·)).foldlM assign {} = .ok f := by
    refine foldlM_assign_perm (hperm.symm.filter _) ?_
    rw [List.filter_append, hfilter, List.foldlM_append, hf]
    exact foldlM_assign_unknown hskipped f
  constructor
  · intro hdepth
    refine message_map_eq_ok_iff.mpr ⟨f, ?_, hfields⟩
    rwa [List.filter_eq_self.mpr] at hshallow
    intro e he
    refine decide_eq_true ?_
    rcases List.mem_append.mp (hperm.mem_iff.mp he) with hmem | hmem
    · exact not_isTooDeep_of_foldlM hf e hmem
    · exact fun hdeep => Nat.not_lt.mpr (hdepth e hmem) hdeep.2
  · rintro ⟨e, hmem, hdepth⟩
    have hdeep : IsTooDeep e := ⟨fieldName_eq_unknown_iff.mpr (hunknown e hmem), hdepth⟩
    have hmem' : e ∈ es' := hperm.mem_iff.mpr (List.mem_append_right _ hmem)
    rw [message, foldlM_assign_tooDeep hshallow ⟨e, hmem', hdeep⟩]
    rfl

end Value

open Value

variable {es es' extra : List (Value × Value)} {body more payload rest : List UInt8}

theorem PackedEntries.append (h : PackedEntries es body) (h' : PackedEntries extra more) :
    PackedEntries (es ++ extra) (body ++ more) := by
  induction es generalizing body with
  | nil =>
      cases h
      exact h'
  | cons e es ih =>
      cases h with
      | cons hk hv hs =>
          rw [List.append_assoc, List.append_assoc]
          exact .cons hk hv (ih hs)

theorem PackedEntries.perm (h : PackedEntries es body) (hperm : es.Perm es') :
    ∃ body', PackedEntries es' body' := by
  induction hperm generalizing body with
  | nil => exact ⟨body, h⟩
  | cons e _ ih =>
      cases h with
      | cons hk hv hs =>
          obtain ⟨body', hs'⟩ := ih hs
          exact ⟨_, .cons hk hv hs'⟩
  | swap a b es =>
      cases h with
      | cons hk hv hs =>
          cases hs with
          | cons hk' hv' hs' => exact ⟨_, .cons hk' hv' (.cons hk hv hs')⟩
  | trans _ _ ih ih' =>
      obtain ⟨body', hs'⟩ := ih h
      exact ih' hs'

/-- A payload that holds a message as a map still does when its entries are put in another
order and entries of unknown keys are put anywhere among them, and such a payload exists as
long as the entries can be counted. With a value among the new ones that nests too deeply,
this is what is answered, wherever it stands. -/
theorem decode_unknown_fields {m : Message} (hpayload : Packed (.map es) payload)
    (hm : decode (payload ++ rest) = .ok m) (hextra : PackedEntries extra more)
    (hunknown : ∀ e ∈ extra, e.1.IsUnknownKey) (hperm : es'.Perm (es ++ extra)) :
    (es'.length < 2 ^ 32 → ∃ payload', Packed (.map es') payload') ∧
      ∀ payload', Packed (.map es') payload' → ∀ rest',
        ((∀ e ∈ extra, e.2.depth ≤ maxDepth) → decode (payload' ++ rest') = .ok m) ∧
        ((∃ e ∈ extra, maxDepth < e.2.depth) →
          decode (payload' ++ rest') = .error .tooDeep) := by
  rw [decode_of_packed hpayload] at hm
  constructor
  · intro hlength
    cases hpayload with
    | map _ hes =>
        obtain ⟨body', hes'⟩ := (hes.append hextra).perm hperm.symm
        exact ⟨_, .map (head_mapHeader hlength) hes'⟩
  · intro payload' hpayload' rest'
    rw [decode_of_packed hpayload']
    exact message_map_perm hm hunknown hperm

/-- Nil inside arrays, as many of them as said. -/
def Value.nested : Nat → Value
  | 0 => .nil
  | n + 1 => .array [nested n]

theorem depth_nested (n : Nat) : (Value.nested n).depth = n := by
  induction n with
  | zero => rfl
  | succ n ih => simp [Value.nested, Value.depth, Value.depthList, ih]

theorem packed_nested (n : Nat) : Packed (.nested n) (List.replicate n 0x91 ++ [0xc0]) := by
  induction n with
  | zero => exact .nil
  | succ n ih =>
      have hmarker : (0x91, 1) ∈ Form.array.held := by decide
      have harray := Packed.array (.held hmarker) (.cons ih .nil)
      rwa [List.append_nil, ← List.append_assoc] at harray

/-- The deepest value that can be skipped, under a key that is no text, and one that nests once
more. -/
theorem decode_unknown_fields_nested :
    let kind : Value × Value := (.str (Text.bytes "Type"), .str [0x6b])
    let id : Value × Value := (.str (Text.bytes "ID"), .unsigned 5)
    let payload : List UInt8 :=
      [0x82, 0xa4, 0x54, 0x79, 0x70, 0x65, 0xa1, 0x6b, 0xa2, 0x49, 0x44, 0x05]
    let deepest : Value × Value := (.bin [0xff], .nested 1022)
    let tooDeep : Value × Value := (.unsigned 3, .nested 1023)
    Packed (.map [kind, id]) payload ∧ decode payload = .ok ⟨"k", none, 5⟩ ∧
      (∃ payload', Packed (.map [deepest, id, kind]) payload' ∧
        decode payload' = .ok ⟨"k", none, 5⟩) ∧
      ∃ payload', Packed (.map [kind, tooDeep, id]) payload' ∧
        decode payload' = .error .tooDeep := by
  intro kind id payload deepest tooDeep
  have hkind : Packed (.str (Text.bytes "Type")) [0xa4, 0x54, 0x79, 0x70, 0x65] :=
    .str (.held (b := 0xa4) (by decide))
  have hk : Packed (.str [0x6b]) [0xa1, 0x6b] := .str (.held (b := 0xa1) (by decide))
  have hid : Packed (.str (Text.bytes "ID")) [0xa2, 0x49, 0x44] :=
    .str (.held (b := 0xa2) (by decide))
  have hnumber : Packed (.unsigned 5) [0x05] := .unsigned (.held (by decide))
  have hpayload : Packed (.map [kind, id]) payload :=
    .map (.held (b := 0x82) (by decide)) (.cons hkind hk (.cons hid hnumber .nil))
  have hdecode : decode payload = .ok ⟨"k", none, 5⟩ := by decide
  have hone : Form.bin.Head (beValue [0x01]) [0xc4, 0x01] := .wide (by decide)
  have hdeepest : PackedEntries [deepest] _ := .cons (.bin hone) (packed_nested 1022) .nil
  have hthree : Form.unsigned.Head 3 [0x03] := .held (by decide)
  have htooDeep : PackedEntries [tooDeep] _ :=
    .cons (.unsigned hthree) (packed_nested 1023) .nil
  have hdecode' : decode (payload ++ []) = .ok ⟨"k", none, 5⟩ := hdecode
  obtain ⟨hexists, hall⟩ := decode_unknown_fields hpayload hdecode' hdeepest
    (List.forall_mem_singleton.mpr (by decide : _ ∧ _ ∧ _))
    (List.reverse_perm [kind, id, deepest])
  obtain ⟨hexists', hall'⟩ := decode_unknown_fields hpayload hdecode' htooDeep
    (List.forall_mem_singleton.mpr (Nat.le_refl 3)) (.cons kind (.swap id tooDeep []))
  obtain ⟨payload₁, hpayload₁⟩ := hexists (by decide)
  obtain ⟨payload₂, hpayload₂⟩ := hexists' (by decide)
  refine ⟨hpayload, hdecode, ⟨payload₁, hpayload₁, ?_⟩, payload₂, hpayload₂, ?_⟩
  · have hshallow := (hall payload₁ hpayload₁ []).1 (by simp [deepest, depth_nested, maxDepth])
    rwa [List.append_nil] at hshallow
  · have hdeep := (hall' payload₂ hpayload₂ []).2 (by simp [tooDeep, depth_nested, maxDepth])
    rwa [List.append_nil] at hdeep

end HookRelay.Wire
