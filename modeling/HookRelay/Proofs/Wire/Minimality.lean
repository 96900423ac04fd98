import HookRelay.Proofs.Wire.Size
import HookRelay.Proofs.Wire.UnknownFields
import Mathlib.Data.List.Induction
/-!
The shortest payloads. No packed form of a part of a message is shorter than the one that is
written, whatever markers it uses, and the last value of a key that is given twice takes no
more room than both. So of all payloads that spell out the three fields by name, the one that
is written for a message is a shortest.
-/

namespace HookRelay.Wire

variable {n : Nat} {bs bs' body head : List UInt8}

theorem beValue_lt (bs : List UInt8) : beValue bs < 256 ^ bs.length := by
  induction bs using List.reverseRecOn with
  | nil => decide
  | append_singleton bs b ih =>
      have hb := b.toNat_lt
      rw [beValue_concat, List.length_append, List.length_singleton, Nat.pow_succ]
      omega

/-! ### Counts and numbers -/

section Heads

variable {f : Form}

theorem Form.Head.size_le (size : Nat → Nat) (hheld : ∀ p ∈ f.held, size p.2 ≤ 1)
    (hwide : ∀ p ∈ f.wide, ∀ n < 256 ^ p.2, size n ≤ p.2 + 1) (h : f.Head n head) :
    size n ≤ head.length := by
  cases h with
  | held h => exact hheld _ h
  | @wide b bs h => exact hwide (b, bs.length) h _ (beValue_lt bs)

/-- Texts and byte strings have their lengths in one, two or four bytes; only short texts have
them in the marker. -/
theorem textHeaderSize_le (hheld : ∀ p ∈ f.held, p.2 < 32)
    (hwide : ∀ p ∈ f.wide, p.2 ∈ [1, 2, 4])
    (h : f.Head n head) : textHeaderSize n ≤ head.length := by
  apply h.size_le textHeaderSize
  · intro p hp
    rw [textHeaderSize, if_pos (hheld p hp)]
  · rintro ⟨b, width⟩ hp n hn
    have hwidth : width = 1 ∨ width = 2 ∨ width = 4 := by simpa using hwide _ hp
    change n < 256 ^ width at hn
    change textHeaderSize n ≤ width + 1
    unfold textHeaderSize
    rcases hwidth with rfl | rfl | rfl <;> split_ifs <;> omega

end Heads

theorem mapHeaderSize_le (h : Form.map.Head n head) : mapHeaderSize n ≤ head.length := by
  apply h.size_le mapHeaderSize
  · decide
  · simp only [Form.map, mapHeaderSize, List.forall_mem_cons]
    refine ⟨?_, ?_, List.forall_mem_nil _⟩ <;> (intro n hn; split_ifs <;> omega)

theorem numberSize_le_of_unsigned (h : Form.unsigned.Head n head) :
    numberSize n ≤ head.length := by
  apply h.size_le fun n => numberSize n
  · decide +kernel
  · simp only [Form.unsigned, numberSize, List.forall_mem_cons]
    refine ⟨?_, ?_, ?_, ?_, List.forall_mem_nil _⟩ <;> (intro n hn; split_ifs <;> omega)

theorem numberSize_le_of_signed {b : UInt8} (h : (b, bs.length) ∈ signedMarkers) :
    numberSize (twosComplement bs) ≤ bs.length + 1 := by
  have hlen : bs.length = 1 ∨ bs.length = 2 ∨ bs.length = 4 ∨ bs.length = 8 := by
    simp only [signedMarkers, List.mem_cons, Prod.mk.injEq, List.not_mem_nil, or_false] at h
    omega
  have hlow : -(((256 ^ bs.length : Nat) : Int) / 2) ≤ twosComplement bs :=
    Int.le_bmod (Nat.pow_pos (by decide))
  have hhigh : twosComplement bs < (((256 ^ bs.length : Nat) : Int) + 1) / 2 :=
    Int.bmod_lt (Nat.pow_pos (by decide))
  unfold numberSize
  rcases hlen with hlen | hlen | hlen | hlen <;> rw [hlen] at hlow hhigh ⊢ <;>
    split_ifs <;> omega

/-! ### The parts of a message -/

/-- The value is this text, as a text or as a byte string. -/
def Value.Spells (v : Value) (s : String) : Prop :=
  v = .str (Text.bytes s) ∨ v = .bin (Text.bytes s)

variable {v : Value} {e : Value × Value} {es : List (Value × Value)} {s : String}

theorem Value.text_eq_ok_iff : v.text = .ok s ↔ v.Spells s := by
  unfold Spells
  constructor
  · intro h
    cases v with
    | str text | bin text =>
        rw [Value.text] at h
        cases htext : Text.ofBytes? text <;> rw [htext] at h <;> cases h
        simp [Text.ofBytes?_eq_some_iff.mp htext]
    | _ => cases h
  · rintro (rfl | rfl) <;> simp [Value.text]

theorem textSize_le (h : Packed v bs) (hs : v.Spells s) : textSize s ≤ bs.length := by
  rw [textSize, ← length_bytes]
  rcases hs with rfl | rfl
  · cases h with
    | str h =>
        have hhead := textHeaderSize_le (by decide) (by decide) h
        rw [List.length_append]
        omega
  · cases h with
    | bin h =>
        have hhead := textHeaderSize_le (by decide) (by decide) h
        rw [List.length_append]
        omega

theorem toInt_of_inRange {i : Int} {id : Int64} (h : Value.inRange i = .ok id) : id.toInt = i := by
  unfold Value.inRange at h
  split at h
  · next hrange =>
    cases h
    exact Int64.toInt_ofInt_of_le hrange.1 hrange.2
  · cases h

theorem numberSize_le {id : Int64} (h : Packed v bs) (hid : v.number = .ok id) :
    numberSize id.toInt ≤ bs.length := by
  cases h with
  | unsigned h =>
      rw [toInt_of_inRange hid]
      exact numberSize_le_of_unsigned h
  | @negative b h =>
      have hb := b.toNat_lt
      rw [toInt_of_inRange hid, numberSize, if_pos (by omega)]
      rfl
  | signed h =>
      rw [toInt_of_inRange hid]
      exact numberSize_le_of_signed h
  | _ => cases hid

theorem assignment_eq_ok_iff {a : String × String} :
    Value.assignment e = .ok a ↔ e.1.Spells a.1 ∧ e.2.Spells a.2 := by
  obtain ⟨key, value⟩ := a
  simp only [Value.assignment, ← Value.text_eq_ok_iff]
  cases e.1.text <;> cases e.2.text <;>
    simp [bind, Except.bind, pure, Except.pure]

theorem sum_le_of_packedEntries {assignments : List (String × String)}
    (h : PackedEntries es body) (has : es.mapM Value.assignment = .ok assignments) :
    (assignments.map fun a => textSize a.1 + textSize a.2).sum ≤ body.length ∧
      assignments.length = es.length := by
  induction es generalizing body assignments with
  | nil =>
      cases has
      exact ⟨Nat.zero_le _, rfl⟩
  | cons e es ih =>
      rw [List.mapM_cons] at has
      obtain ⟨a, ha, has⟩ := exists_of_bind_eq_ok has
      obtain ⟨others, hothers, has⟩ := exists_of_bind_eq_ok has
      cases has
      cases h with
      | cons hk hv hs =>
          obtain ⟨hkey, hvalue⟩ := assignment_eq_ok_iff.mp ha
          obtain ⟨hsum, hcount⟩ := ih hs hothers
          have hkeySize := textSize_le hk hkey
          have hvalueSize := textSize_le hv hvalue
          simp only [List.map_cons, List.sum_cons, List.length_append, List.length_cons]
          omega

theorem mapHeaderSize_pos (n : Nat) : 0 < mapHeaderSize n := by
  unfold mapHeaderSize
  split_ifs <;> omega

theorem mapHeaderSize_mono {m n : Nat} (h : m ≤ n) : mapHeaderSize m ≤ mapHeaderSize n := by
  unfold mapHeaderSize
  split_ifs <;> omega

theorem dataSize_le {data : Option Payload} (h : Packed v bs) (hdata : v.data = .ok data) :
    dataSize data ≤ bs.length := by
  cases h with
  | nil =>
      cases hdata
      exact Nat.le_refl _
  | map h hes =>
      obtain ⟨assignments, has, hdata⟩ := exists_of_bind_eq_ok hdata
      cases hdata
      obtain ⟨hsum, hcount⟩ := sum_le_of_packedEntries hes has
      have hentries := Payload.sum_ofList_le (w := fun a => textSize a.1 + textSize a.2) assignments
      have hlength := Payload.length_ofList_le assignments
      have hmono := mapHeaderSize_mono hlength
      have hhead := mapHeaderSize_le h
      rw [← hcount] at hhead
      rw [dataSize, List.length_append]
      omega
  | _ => cases hdata

/-! ### Fields -/

/-- The field has been read. -/
def Fields.Has (f : Fields) : FieldName → Prop
  | .kind => f.kind.isSome
  | .data => f.data.isSome
  | .id => f.id.isSome
  | .unknown => False

namespace Value

variable {fs fs' : Fields} {name : FieldName} {a b : Value × Value}

theorem Assigns.has_iff (h : Assigns fs e fs') (hname : name ≠ .unknown) :
    fs'.Has name ↔ fs.Has name ∨ e.1.fieldName = .ok name := by
  cases h with
  | kind hkey hfree hvalue | data hkey hfree hvalue | id hkey hfree hvalue =>
      cases name <;> simp_all [Fields.Has]
  | unknown hkey hdepth => simp [hkey, hname.symm]

theorem Assigns.not_has (h : Assigns fs e fs') (hkey : e.1.fieldName = .ok name) :
    ¬ fs.Has name := by
  cases h with
  | kind hkey' hfree _ | data hkey' hfree _ | id hkey' hfree _ =>
      obtain rfl := Except.ok.inj (hkey'.symm.trans hkey)
      simp [Fields.Has, hfree]
  | unknown hkey' _ =>
      obtain rfl := Except.ok.inj (hkey'.symm.trans hkey)
      exact not_false

theorem has_iff_of_foldlM (h : es.foldlM assign fs = .ok fs') (hname : name ≠ .unknown) :
    fs'.Has name ↔ fs.Has name ∨ ∃ e ∈ es, e.1.fieldName = .ok name := by
  induction es generalizing fs with
  | nil =>
      cases h
      simp
  | cons e es ih =>
      obtain ⟨fs₁, hassign, hrest⟩ := foldlM_cons_eq_ok_iff.mp h
      rw [ih hrest, (assigns_of_assign hassign).has_iff hname, List.exists_mem_cons_iff, or_assoc]

theorem not_has_of_foldlM (h : es.foldlM assign fs = .ok fs') (he : e ∈ es)
    (hkey : e.1.fieldName = .ok name) : ¬ fs.Has name := by
  induction es generalizing fs with
  | nil => cases he
  | cons head es ih =>
      obtain ⟨fs₁, hassign, hrest⟩ := foldlM_cons_eq_ok_iff.mp h
      rcases List.mem_cons.mp he with rfl | he
      · exact (assigns_of_assign hassign).not_has hkey
      · intro hhas
        refine ih hrest he ?_
        cases name with
        | unknown => exact hhas
        | kind | data | id =>
            exact ((assigns_of_assign hassign).has_iff (by decide)).mpr (.inl hhas)

theorem eq_of_fieldName_eq (h : es.foldlM assign fs = .ok fs') (hname : name ≠ .unknown)
    (ha : a ∈ es) (hb : b ∈ es) (hkey : a.1.fieldName = .ok name)
    (hkey' : b.1.fieldName = .ok name) : a = b := by
  induction es generalizing fs with
  | nil => cases ha
  | cons e es ih =>
      obtain ⟨fs₁, hassign, hrest⟩ := foldlM_cons_eq_ok_iff.mp h
      have hfresh : e.1.fieldName = .ok name → ∀ e' ∈ es, e'.1.fieldName ≠ .ok name := by
        intro hhead e' he' htail
        apply not_has_of_foldlM hrest he' htail
        exact ((assigns_of_assign hassign).has_iff hname).mpr (.inr hhead)
      rcases List.mem_cons.mp ha with rfl | hmem
      · rcases List.mem_cons.mp hb with rfl | hmem'
        · rfl
        · exact absurd hkey' (hfresh hkey b hmem')
      · rcases List.mem_cons.mp hb with rfl | hmem'
        · exact absurd hkey (hfresh hkey' a hmem)
        · exact ih hrest hmem hmem'

/-- The key of an entry is the position of a field. -/
def IsPosition (v : Value) : Prop := ∃ n < 3, v = unsigned n

/-- The name of a field, empty for a field of another name. -/
def nameOf : FieldName → String
  | .kind => "Type"
  | .data => "Data"
  | .id => "ID"
  | .unknown => ""

theorem ofBytes_eq_iff {text : List UInt8} (hname : name ≠ .unknown) :
    FieldName.ofBytes text = name ↔ text = Text.bytes (nameOf name) := by
  constructor
  · intro h
    unfold FieldName.ofBytes at h
    split at h
    · next htext => exact h ▸ htext
    split at h
    · next htext => exact h ▸ htext
    split at h
    · next htext => exact h ▸ htext
    · exact absurd h.symm hname
  · rintro rfl
    cases name with
    | unknown => exact absurd rfl hname
    | kind | data | id => decide

theorem fieldName_of_spells (hname : name ≠ .unknown) (h : v.Spells (nameOf name)) :
    v.fieldName = .ok name := by
  rcases h with rfl | rfl <;> exact congrArg Except.ok ((ofBytes_eq_iff hname).mpr rfl)

theorem spells_of_fieldName (hname : name ≠ .unknown) (h : v.fieldName = .ok name) :
    v.Spells (nameOf name) ∨ v.IsPosition := by
  cases v with
  | str text => exact .inl (.inl (congrArg str ((ofBytes_eq_iff hname).mp (Except.ok.inj h))))
  | bin text => exact .inl (.inr (congrArg bin ((ofBytes_eq_iff hname).mp (Except.ok.inj h))))
  | unsigned n =>
      refine .inr ⟨n, Nat.lt_of_not_le fun hle => hname ?_, rfl⟩
      exact (Except.ok.inj h).symm.trans (ofIndex_eq_unknown_iff.mpr hle)
  | _ => cases h

end Value

open Value

/-- The fields that have been read, each behind its name. -/
def Fields.size (fs : Fields) : Nat :=
  fs.kind.elim 0 (5 + textSize ·) + fs.data.elim 0 (5 + dataSize ·) +
    fs.id.elim 0 (3 + numberSize ·.toInt)

variable {fs fs' : Fields}

theorem size_le_of_assigns (h : Assigns fs e fs') (hkey : ¬ e.1.IsPosition) (hk : Packed e.1 bs)
    (hv : Packed e.2 bs') : fs'.size ≤ fs.size + (bs.length + bs'.length) := by
  have hnamed {name : FieldName} (hname : name ≠ .unknown) (h : e.1.fieldName = .ok name) :
      textSize (nameOf name) ≤ bs.length :=
    textSize_le hk ((spells_of_fieldName hname h).resolve_right hkey)
  cases h with
  | kind hkey hfree hvalue =>
      have hkeySize : 5 ≤ bs.length := hnamed (by decide) hkey
      have hvalueSize := textSize_le hv (text_eq_ok_iff.mp hvalue)
      simp only [Fields.size, hfree, Option.elim]
      omega
  | data hkey hfree hvalue =>
      have hkeySize : 5 ≤ bs.length := hnamed (by decide) hkey
      have hvalueSize := dataSize_le hv hvalue
      simp only [Fields.size, hfree, Option.elim]
      omega
  | id hkey hfree hvalue =>
      have hkeySize : 3 ≤ bs.length := hnamed (by decide) hkey
      have hvalueSize := numberSize_le hv hvalue
      simp only [Fields.size, hfree, Option.elim]
      omega
  | unknown _ _ => exact Nat.le_add_right _ _

theorem size_le_of_foldlM (h : es.foldlM assign fs = .ok fs') (hes : PackedEntries es body)
    (hkeys : ∀ e ∈ es, ¬ e.1.IsPosition) : fs'.size ≤ fs.size + body.length := by
  induction es generalizing fs body with
  | nil =>
      cases h
      exact Nat.le_add_right _ _
  | cons e es ih =>
      obtain ⟨fs₁, hassign, hrest⟩ := foldlM_cons_eq_ok_iff.mp h
      obtain ⟨hkey, hrestKeys⟩ := List.forall_mem_cons.mp hkeys
      cases hes with
      | cons hk hv hs =>
          have hhead := size_le_of_assigns (assigns_of_assign hassign) hkey hk hv
          have htail := ih hrest hs hrestKeys
          rw [List.length_append, List.length_append]
          omega

/-! ### Payloads -/

/-- The payload starts with a map in which each field stands under its name. -/
def IsSpelledOut (payload : List UInt8) : Prop :=
  ∃ es bs rest, payload = bs ++ rest ∧ Packed (.map es) bs ∧
    ∀ name ∈ ["Type", "Data", "ID"], ∃ e ∈ es, e.1.Spells name

variable {m : Message} {maxLen : Nat} {payload frame : List UInt8}

theorem not_isPosition_of_foldlM (h : es.foldlM assign fs = .ok fs')
    (hspelled : ∀ name ≠ .unknown, ∃ e ∈ es, e.1.Spells (nameOf name)) :
    ∀ e ∈ es, ¬ e.1.IsPosition := by
  rintro e he ⟨n, hn, hkey⟩
  have hname : FieldName.ofIndex n ≠ .unknown := fun h =>
    absurd (ofIndex_eq_unknown_iff.mp h) (Nat.not_le.mpr hn)
  have hfield : e.1.fieldName = .ok (FieldName.ofIndex n) := by rw [hkey]; rfl
  obtain ⟨e', he', hspells⟩ := hspelled _ hname
  obtain rfl := eq_of_fieldName_eq h hname he he' hfield (fieldName_of_spells hname hspells)
  rw [hkey] at hspells
  rcases hspells with hspells | hspells <;> cases hspells

theorem packedSize_of_ofFields (h : ofFields fs = .ok m)
    (hhas : ∀ name ≠ .unknown, fs.Has name) :
    packedSize m = 1 + fs.size := by
  obtain ⟨kind, data, id⟩ := fs
  obtain ⟨kind, rfl⟩ := Option.isSome_iff_exists.mp (hhas .kind (by decide))
  obtain ⟨data, rfl⟩ := Option.isSome_iff_exists.mp (hhas .data (by decide))
  obtain ⟨id, rfl⟩ := Option.isSome_iff_exists.mp (hhas .id (by decide))
  cases h
  simp only [packedSize, Fields.size, Option.elim, Option.getD_some]
  omega

/-- A payload that spells out the fields has room for each of them and for its name. -/
theorem packedSize_le (h : IsSpelledOut payload) (hdecode : decode payload = .ok m) :
    packedSize m ≤ payload.length := by
  obtain ⟨es, bs, rest, rfl, hpacked, hnames⟩ := h
  rw [decode_of_packed hpacked] at hdecode
  obtain ⟨fs, hfold, hm⟩ := message_map_eq_ok_iff.mp hdecode
  have hspelled : ∀ name ≠ .unknown, ∃ e ∈ es, e.1.Spells (nameOf name) := by
    intro name hname
    apply hnames
    cases name <;> simp [nameOf] at hname ⊢
  have hhas : ∀ name ≠ .unknown, fs.Has name := by
    intro name hname
    obtain ⟨e, he, hspells⟩ := hspelled name hname
    exact (has_iff_of_foldlM hfold hname).mpr (.inr ⟨e, he, fieldName_of_spells hname hspells⟩)
  rw [packedSize_of_ofFields hm hhas]
  cases hpacked with
  | @map _ head body hhead hes =>
      have hfields : fs.size ≤ 0 + body.length :=
        size_le_of_foldlM hfold hes (not_isPosition_of_foldlM hfold hspelled)
      have hheader : 0 < head.length := Nat.lt_of_lt_of_le (mapHeaderSize_pos _)
        (mapHeaderSize_le hhead)
      simp only [List.length_append]
      omega

theorem isSpelledOut_encode (h : IsPackable m) : IsSpelledOut (encode m) := by
  refine ⟨_, encode m, [], (List.append_nil _).symm, packed_encode h, ?_⟩
  simp only [List.forall_mem_cons]
  refine ⟨?_, ?_, ?_, List.forall_mem_nil _⟩
  · exact ⟨_, .head _, .inl rfl⟩
  · exact ⟨_, .tail _ (.head _), .inl rfl⟩
  · exact ⟨_, .tail _ (.tail _ (.head _)), .inl rfl⟩

/-- The payload that is written for a message spells out the fields and holds the message, and
among all payloads that do it is a shortest, whatever order, markers, repetitions and unknown
entries they have. -/
theorem encodeFrame_minimal (h : encodeFrame m maxLen = .ok frame) :
    IsSpelledOut (frame.drop 2) ∧ decode (frame.drop 2) = .ok m ∧
      ∀ payload, IsSpelledOut payload → decode payload = .ok m →
        (frame.drop 2).length ≤ payload.length := by
  obtain ⟨-, hmax, rfl⟩ := encodeFrame_eq_ok_iff.mp h
  have hpackable : IsPackable m := by
    apply isPackable_of_length
    rw [maxPayload] at hmax
    omega
  rw [List.drop_left' (length_beBytes 2 _)]
  refine ⟨isSpelledOut_encode hpackable, decode_encode_of_encodeFrame h, ?_⟩
  intro payload hspelled hdecode
  rw [length_encode]
  exact packedSize_le hspelled hdecode

/-- Fields in another order behind wide markers, an unknown entry, and a key of the data that is
given twice. -/
theorem encodeFrame_minimal_wide_markers :
    let m : Message := ⟨"é", some (Payload.ofList [("k", "b")]), -3⟩
    let data : List UInt8 := [0x82, 0xa1, 0x6b, 0xa1, 0x61, 0xc4, 0x01, 0x6b, 0xd9, 0x01, 0x62]
    let payload : List UInt8 := [0xde, 0x00, 0x04] ++
      ([0xc4, 0x02, 0x49, 0x44, 0xd1, 0xff, 0xfd, 0x03, 0xc0, 0xa4, 0x44, 0x61, 0x74, 0x61] ++
        data ++ [0xd9, 0x04, 0x54, 0x79, 0x70, 0x65, 0xc4, 0x02, 0xc3, 0xa9])
    ∃ frame, encodeFrame m 64 = .ok frame ∧ IsSpelledOut payload ∧ decode payload = .ok m ∧
      (frame.drop 2).length ≤ payload.length := by
  intro m data payload
  have hframe : encodeFrame m 64 = .ok (beBytes 2 (encode m).length ++ encode m) :=
    encodeFrame_eq_ok_iff.mpr ⟨by decide, by decide, rfl⟩
  have hstr (text : List UInt8) (h : text.length < 256) :
      Packed (.str text) (0xd9 :: beBytes 1 text.length ++ text) :=
    .str (Form.head_wide (by decide) h)
  have hbin (text : List UInt8) (h : text.length < 256) :
      Packed (.bin text) (0xc4 :: beBytes 1 text.length ++ text) :=
    .bin (Form.head_wide (by decide) h)
  have hnumber : Packed (.signed (twosComplement [0xff, 0xfd])) [0xd1, 0xff, 0xfd] :=
    .signed (by decide)
  have hunknown : Packed (.unsigned 3) [0x03] := .unsigned (.held (by decide))
  have hdata : Packed (.str (Text.bytes "Data")) [0xa4, 0x44, 0x61, 0x74, 0x61] :=
    .str (.held (b := 0xa4) (by decide))
  have hk : Packed (.str [0x6b]) [0xa1, 0x6b] := .str (.held (b := 0xa1) (by decide))
  have ha : Packed (.str [0x61]) [0xa1, 0x61] := .str (.held (b := 0xa1) (by decide))
  have hentries : Packed (.map [(.str [0x6b], .str [0x61]), (.bin [0x6b], .str [0x62])]) data :=
    .map (.held (b := 0x82) (by decide))
      (.cons hk ha (.cons (hbin [0x6b] (by decide)) (hstr [0x62] (by decide)) .nil))
  let es : List (Value × Value) := [
    (.bin (Text.bytes "ID"), .signed (twosComplement [0xff, 0xfd])),
    (.unsigned 3, .nil),
    (.str (Text.bytes "Data"), .map [(.str [0x6b], .str [0x61]), (.bin [0x6b], .str [0x62])]),
    (.str (Text.bytes "Type"), .bin (Text.bytes "é"))]
  have hfour : Form.map.Head 4 (0xde :: beBytes 2 4) := Form.head_wide (by decide) (by decide)
  have hpayload : Packed (.map es) payload :=
    .map hfour (.cons (hbin (Text.bytes "ID") (by decide)) hnumber (.cons hunknown .nil
      (.cons hdata hentries (.cons (hstr (Text.bytes "Type") (by decide))
        (hbin (Text.bytes "é") (by decide)) .nil))))
  have hspelled : IsSpelledOut payload := by
    refine ⟨es, payload, [], (List.append_nil _).symm, hpayload, ?_⟩
    simp only [List.forall_mem_cons]
    refine ⟨?_, ?_, ?_, List.forall_mem_nil _⟩
    · exact ⟨_, .tail _ (.tail _ (.tail _ (.head _))), .inl rfl⟩
    · exact ⟨_, .tail _ (.tail _ (.head _)), .inl rfl⟩
    · exact ⟨_, .head _, .inr rfl⟩
  have hdecode : decode payload = .ok m := by decide +kernel
  exact ⟨_, hframe, hspelled, hdecode,
    (encodeFrame_minimal hframe).2.2 payload hspelled hdecode⟩

end HookRelay.Wire
