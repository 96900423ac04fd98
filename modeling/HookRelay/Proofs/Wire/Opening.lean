import HookRelay.Proofs.Wire.Value
/-!
What stands at the front of a packed value. Taking the marker and its count takes
exactly a head of the marker's form (`Packed.exists_opened`), and whatever is opened
that way and read on as its kind demands is one packed value
(`Opened.exists_packed`).
-/

namespace HookRelay.Wire

namespace Reader

variable {α β σ : Type}

theorem bind_apply (x : Reader α) (f : α → Reader β) (bs : List UInt8) :
    (x >>= f) bs = match x bs with
      | .ok (a, rest) => f a rest
      | .error e => .error e := by
  change Except.bind (x bs) _ = _
  cases x bs <;> rfl

@[simp] theorem pure_apply (a : α) (bs : List UInt8) : (pure a : Reader α) bs = .ok (a, bs) := rfl

@[simp] theorem fail_apply (e : DecodeError) (bs : List UInt8) :
    (fail e : Reader α) bs = .error e := rfl

theorem bind_of_ok {x : Reader α} {f : α → Reader β} {bs rest : List UInt8} {a : α}
    (h : x bs = .ok (a, rest)) : (x >>= f) bs = f a rest := by
  rw [bind_apply, h]

theorem bind_eq_ok_iff {x : Reader α} {f : α → Reader β} {bs rest : List UInt8} {b : β} :
    (x >>= f) bs = .ok (b, rest) ↔
      ∃ a bs', x bs = .ok (a, bs') ∧ f a bs' = .ok (b, rest) := by
  rw [bind_apply]
  cases hx : x bs with
  | error e => simp
  | ok p =>
      obtain ⟨a, bs'⟩ := p
      simp only [Except.ok.injEq, Prod.mk.injEq]
      constructor
      · intro h
        exact ⟨a, bs', ⟨rfl, rfl⟩, h⟩
      · rintro ⟨_, _, ⟨rfl, rfl⟩, h⟩
        exact h

theorem marker_eq_ok_iff {bs tail : List UInt8} {mk : Marker} :
    marker bs = .ok (mk, tail) ↔ ∃ b, bs = b :: tail ∧ Marker.ofByte b = mk := by
  cases bs with
  | nil => simp [marker]
  | cons b bs =>
      simp only [marker, Except.ok.injEq, Prod.mk.injEq, List.cons.injEq]
      constructor
      · rintro ⟨h, rfl⟩
        exact ⟨b, ⟨rfl, rfl⟩, h⟩
      · rintro ⟨b', ⟨rfl, rfl⟩, h⟩
        exact ⟨h, rfl⟩

theorem take_eq_ok_iff {n : Nat} {tail rest bs : List UInt8} :
    take n tail = .ok (bs, rest) ↔ tail = bs ++ rest ∧ bs.length = n := by
  simp only [take]
  constructor
  · intro h
    split at h
    · next hlen =>
      cases h
      exact ⟨(List.take_append_drop n tail).symm, hlen⟩
    · cases h
  · rintro ⟨rfl, rfl⟩
    simp

theorem field_here_eq_ok_iff {m n : Nat} {tail rest : List UInt8} :
    field (.here m) tail = .ok (n, rest) ↔ tail = rest ∧ m = n := by
  simp [field, and_comm]

theorem field_after_eq_ok_iff {width n : Nat} {tail rest : List UInt8} :
    field (.after width) tail = .ok (n, rest) ↔
      ∃ bs, tail = bs ++ rest ∧ bs.length = width ∧ beValue bs = n := by
  simp only [field, bind_eq_ok_iff, take_eq_ok_iff, pure_apply, Except.ok.injEq, Prod.mk.injEq]
  constructor
  · rintro ⟨bs, _, h, rfl, rfl⟩
    exact ⟨bs, h.1, h.2, rfl⟩
  · rintro ⟨bs, h, hlen, rfl⟩
    exact ⟨bs, rest, ⟨h, hlen⟩, rfl, rfl⟩

theorem counted_eq_ok_iff {len : Field} {tail rest bs : List UInt8} :
    counted len tail = .ok (bs, rest) ↔ field len tail = .ok (bs.length, bs ++ rest) := by
  simp only [counted, bind_eq_ok_iff, take_eq_ok_iff]
  constructor
  · rintro ⟨n, tail', h, rfl, rfl⟩
    exact h
  · intro h
    exact ⟨_, _, h, rfl, rfl⟩

end Reader

open Reader

/-- The byte is a marker of the form whose count stands in this field. -/
def Form.Marks (f : Form) (b : UInt8) : Field → Prop
  | .here n => (b, n) ∈ f.held
  | .after width => (b, width) ∈ f.wide

instance (f : Form) (b : UInt8) (len : Field) : Decidable (f.Marks b len) := by
  cases len
  · exact inferInstanceAs (Decidable (_ ∈ f.held))
  · exact inferInstanceAs (Decidable (_ ∈ f.wide))

/-- The bytes that are told apart as this kind of marker. -/
def Marker.Marks (b : UInt8) : Marker → Prop
  | .nil => b = 0xc0
  | .bool v => b = if v then 0xc3 else 0xc2
  | .unsigned value => Form.unsigned.Marks b value
  | .negative i => 0xe0 ≤ b.toNat ∧ i = (b.toNat : Int) - 256
  | .signed width => (b, width) ∈ signedMarkers
  | .float width => (b, width) ∈ floatMarkers
  | .str len => Form.str.Marks b len
  | .bin len => Form.bin.Marks b len
  | .array len => Form.array.Marks b len
  | .map len => Form.map.Marks b len
  | .ext len => Form.ext.Marks b len
  | .reserved => b = 0xc1

instance (b : UInt8) (mk : Marker) : Decidable (mk.Marks b) := by
  cases mk <;> unfold Marker.Marks <;> infer_instance

theorem forall_byte {p : UInt8 → Prop} (h : ∀ n < 256, p (UInt8.ofNat n))
    (b : UInt8) : p b := by
  simpa using h b.toNat b.toNat_lt

theorem marks_ofByte (b : UInt8) : (Marker.ofByte b).Marks b :=
  forall_byte (p := fun b => (Marker.ofByte b).Marks b) (by decide +kernel) b

theorem Form.ofByte_of_marks {f : Form} {kind : Field → Marker} {b : UInt8} {len : Field}
    (hheld : ∀ p ∈ f.held, Marker.ofByte p.1 = kind (.here p.2))
    (hwide : ∀ p ∈ f.wide, Marker.ofByte p.1 = kind (.after p.2)) (h : f.Marks b len) :
    Marker.ofByte b = kind len := by
  cases len with
  | here n => exact hheld (b, n) h
  | after width => exact hwide (b, width) h

theorem ofByte_of_marks {b : UInt8} {mk : Marker} (h : mk.Marks b) : Marker.ofByte b = mk := by
  cases mk with
  | nil | reserved => subst h; decide
  | bool v => cases v <;> subst h <;> decide
  | unsigned value => exact Form.ofByte_of_marks (by decide +kernel) (by decide) h
  | negative i =>
      obtain ⟨hb, rfl⟩ := h
      exact forall_byte
        (p := fun b => 0xe0 ≤ b.toNat → Marker.ofByte b = .negative ((b.toNat : Int) - 256))
        (by decide +kernel) b hb
  | signed width =>
      exact (by decide : ∀ p ∈ signedMarkers, Marker.ofByte p.1 = .signed p.2) (b, width) h
  | float width =>
      exact (by decide : ∀ p ∈ floatMarkers, Marker.ofByte p.1 = .float p.2) (b, width) h
  | str len | bin len | array len | map len | ext len =>
      exact Form.ofByte_of_marks (by decide) (by decide) h

theorem ofByte_eq_iff {b : UInt8} {mk : Marker} : Marker.ofByte b = mk ↔ mk.Marks b :=
  ⟨fun h => h ▸ marks_ofByte b, ofByte_of_marks⟩

namespace Form

/-- Reading a marker of a form and its count takes exactly a head of the form. -/
theorem exists_head {f : Form} {b : UInt8} {len : Field} {tail rest : List UInt8} {n : Nat}
    (hb : f.Marks b len) (hlen : field len tail = .ok (n, rest)) :
    ∃ head, b :: tail = head ++ rest ∧ f.Head n head := by
  cases len with
  | here m =>
      obtain ⟨rfl, rfl⟩ := field_here_eq_ok_iff.mp hlen
      exact ⟨[b], rfl, .held hb⟩
  | after width =>
      obtain ⟨bs, rfl, rfl, rfl⟩ := field_after_eq_ok_iff.mp hlen
      exact ⟨b :: bs, rfl, .wide hb⟩

theorem Head.exists_marks {f : Form} {n : Nat} {head : List UInt8} (h : f.Head n head)
    (rest : List UInt8) :
    ∃ b len tail, head ++ rest = b :: tail ∧ f.Marks b len ∧
      field len tail = .ok (n, rest) := by
  cases h with
  | @held b n h => exact ⟨b, .here n, rest, rfl, h, rfl⟩
  | @wide b bs h =>
      exact ⟨b, .after bs.length, bs ++ rest, rfl, h,
        field_after_eq_ok_iff.mpr ⟨bs, rfl, rfl, rfl⟩⟩

end Form

/-- What is left of a packed value once its marker has been taken, in front of the
bytes `rest`. -/
inductive Opened (rest : List UInt8) : Value → Marker → List UInt8 → Prop where
  | nil : Opened rest .nil .nil rest
  | bool (b : Bool) : Opened rest (.bool b) (.bool b) rest
  | unsigned {n : Nat} {value : Field} {tail : List UInt8}
      (h : field value tail = .ok (n, rest)) : Opened rest (.unsigned n) (.unsigned value) tail
  | negative (i : Int) : Opened rest (.signed i) (.negative i) rest
  | signed (bs : List UInt8) :
      Opened rest (.signed (twosComplement bs)) (.signed bs.length) (bs ++ rest)
  | float (bs : List UInt8) : Opened rest (.float bs) (.float bs.length) (bs ++ rest)
  | str {bs tail : List UInt8} {len : Field} (h : counted len tail = .ok (bs, rest)) :
      Opened rest (.str bs) (.str len) tail
  | bin {bs tail : List UInt8} {len : Field} (h : counted len tail = .ok (bs, rest)) :
      Opened rest (.bin bs) (.bin len) tail
  | array {vs : List Value} {body tail : List UInt8} {len : Field}
      (h : field len tail = .ok (vs.length, body ++ rest)) (hvs : PackedList vs body) :
      Opened rest (.array vs) (.array len) tail
  | map {es : List (Value × Value)} {body tail : List UInt8} {len : Field}
      (h : field len tail = .ok (es.length, body ++ rest)) (hes : PackedEntries es body) :
      Opened rest (.map es) (.map len) tail
  | ext {tag : UInt8} {bs tail : List UInt8} {len : Field}
      (h : field len tail = .ok (bs.length, tag :: bs ++ rest)) :
      Opened rest (.ext tag bs) (.ext len) tail

theorem Packed.exists_opened {v : Value} {bs : List UInt8} (h : Packed v bs)
    (rest : List UInt8) :
    ∃ mk tail, marker (bs ++ rest) = .ok (mk, tail) ∧ Opened rest v mk tail := by
  -- Every packed form starts with a marker; what follows it is as `Opened` has it.
  have hmarker {b : UInt8} {tail : List UInt8} (mk : Marker) (hb : mk.Marks b) :
      marker (b :: tail) = .ok (mk, tail) :=
    marker_eq_ok_iff.mpr ⟨b, rfl, ofByte_of_marks hb⟩
  have hhead {f : Form} {n : Nat} {head : List UInt8} (rest : List UInt8) (kind : Field → Marker)
      (hkind : ∀ b len, f.Marks b len → (kind len).Marks b) (h : f.Head n head) :
      ∃ len tail, marker (head ++ rest) = .ok (kind len, tail) ∧
        field len tail = .ok (n, rest) := by
    obtain ⟨b, len, tail, heq, hb, hlen⟩ := h.exists_marks rest
    rw [heq]
    exact ⟨len, tail, hmarker _ (hkind b len hb), hlen⟩
  cases h with
  | nil => exact ⟨_, _, hmarker .nil rfl, .nil⟩
  | bool b => exact ⟨_, _, hmarker (.bool b) rfl, .bool b⟩
  | unsigned h =>
      obtain ⟨len, tail, hmk, hlen⟩ := hhead rest .unsigned (fun _ _ h => h) h
      exact ⟨_, _, hmk, .unsigned hlen⟩
  | @negative b h => exact ⟨_, _, hmarker (.negative _) ⟨h, rfl⟩, .negative _⟩
  | @signed b bs h => exact ⟨_, _, hmarker (.signed bs.length) h, .signed bs⟩
  | @float b bs h => exact ⟨_, _, hmarker (.float bs.length) h, .float bs⟩
  | @str bs head h =>
      obtain ⟨len, tail, hmk, hlen⟩ := hhead (bs ++ rest) .str (fun _ _ h => h) h
      exact ⟨_, _, by simpa using hmk, .str (counted_eq_ok_iff.mpr hlen)⟩
  | @bin bs head h =>
      obtain ⟨len, tail, hmk, hlen⟩ := hhead (bs ++ rest) .bin (fun _ _ h => h) h
      exact ⟨_, _, by simpa using hmk, .bin (counted_eq_ok_iff.mpr hlen)⟩
  | @array vs head body h hvs =>
      obtain ⟨len, tail, hmk, hlen⟩ := hhead (body ++ rest) .array (fun _ _ h => h) h
      exact ⟨_, _, by simpa using hmk, .array hlen hvs⟩
  | @map es head body h hes =>
      obtain ⟨len, tail, hmk, hlen⟩ := hhead (body ++ rest) .map (fun _ _ h => h) h
      exact ⟨_, _, by simpa using hmk, .map hlen hes⟩
  | @ext tag bs head h =>
      obtain ⟨len, tail, hmk, hlen⟩ := hhead (tag :: bs ++ rest) .ext (fun _ _ h => h) h
      exact ⟨_, _, by simpa using hmk, .ext hlen⟩

theorem Opened.exists_packed {v : Value} {mk : Marker} {bs tail rest : List UInt8}
    (h : Opened rest v mk tail) (hmk : marker bs = .ok (mk, tail)) :
    ∃ used, bs = used ++ rest ∧ Packed v used := by
  obtain ⟨b, rfl, hb⟩ := marker_eq_ok_iff.mp hmk
  replace hb := ofByte_eq_iff.mp hb
  cases h with
  | nil => exact ⟨[b], rfl, hb ▸ .nil⟩
  | bool v => exact ⟨[b], rfl, hb ▸ .bool v⟩
  | unsigned h =>
      obtain ⟨head, heq, hhead⟩ := Form.exists_head hb h
      exact ⟨head, heq, .unsigned hhead⟩
  | negative i =>
      obtain ⟨hb, rfl⟩ := hb
      exact ⟨[b], rfl, .negative hb⟩
  | signed bs => exact ⟨b :: bs, rfl, .signed hb⟩
  | float bs => exact ⟨b :: bs, rfl, .float hb⟩
  | str h =>
      obtain ⟨head, heq, hhead⟩ := Form.exists_head hb (counted_eq_ok_iff.mp h)
      exact ⟨_, by simpa using heq, .str hhead⟩
  | bin h =>
      obtain ⟨head, heq, hhead⟩ := Form.exists_head hb (counted_eq_ok_iff.mp h)
      exact ⟨_, by simpa using heq, .bin hhead⟩
  | array h hvs =>
      obtain ⟨head, heq, hhead⟩ := Form.exists_head hb h
      exact ⟨_, by simpa using heq, .array hhead hvs⟩
  | map h hes =>
      obtain ⟨head, heq, hhead⟩ := Form.exists_head hb h
      exact ⟨_, by simpa using heq, .map hhead hes⟩
  | ext h =>
      obtain ⟨head, heq, hhead⟩ := Form.exists_head hb h
      exact ⟨_, by simpa using heq, .ext hhead⟩

end HookRelay.Wire
