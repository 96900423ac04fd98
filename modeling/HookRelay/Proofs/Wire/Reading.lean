import HookRelay.Proofs.Wire.Opening
/-!
The reader against trees. A reader that reads a function of values gives, in front
of a packed value, what the function gives for the tree, and leaves the bytes after
it alone. Conversely a reader that succeeds has taken exactly one packed value.
-/

namespace HookRelay.Wire

open Reader

variable {α σ : Type}

/-- In front of a packed value the reader answers what `f` answers for the tree. -/
def Reads (r : Reader α) (f : Value → Except DecodeError α) : Prop :=
  ∀ ⦃v bs⦄, Packed v bs → ∀ rest, r (bs ++ rest) = (f v).map (·, rest)

/-- Where the reader succeeds it has taken one packed value. -/
def TakesValue (r : Reader α) : Prop :=
  ∀ ⦃bs a rest⦄, r bs = .ok (a, rest) → ∃ v used, bs = used ++ rest ∧ Packed v used

theorem Opened.refuse {v : Value} {mk : Marker} {tail rest : List UInt8}
    (h : Opened rest v mk tail) : (refuse mk : Reader α) tail = .error v.mismatch := by
  cases h with
  | nil | bool _ | negative _ => rfl
  | unsigned h | array h _ | map h _ | ext h => exact bind_of_ok h
  | signed bs | float bs => exact bind_of_ok (take_eq_ok_iff.mpr ⟨rfl, rfl⟩)
  | bin h => exact bind_of_ok h
  | str h =>
      refine (bind_of_ok h).trans ?_
      simp only [Value.mismatch]
      split <;> rfl

theorem refuse_ne_ok {mk : Marker} {tail rest : List UInt8} {a : α} :
    refuse mk tail ≠ .ok (a, rest) := by
  intro h
  cases mk with
  | nil | bool _ | negative _ | reserved => cases h
  | unsigned len | array len | map len | ext len | signed width | float width | bin len =>
      obtain ⟨_, _, _, h⟩ := bind_eq_ok_iff.mp h
      cases h
  | str len =>
      obtain ⟨_, _, _, h⟩ := bind_eq_ok_iff.mp h
      split at h <;> cases h

theorem readText_reads : Reads readText Value.text := by
  intro v bs h rest
  obtain ⟨mk, tail, hmk, ho⟩ := h.exists_opened rest
  have hrefuse : (refuse mk : Reader String) tail = _ := ho.refuse
  refine (bind_of_ok hmk).trans ?_
  cases ho with
  | @str bs _ _ h | @bin bs _ _ h =>
      refine (bind_of_ok h).trans ?_
      simp only [Value.text]
      cases Text.ofBytes? bs <;> rfl
  | nil | bool | unsigned | negative | signed | float | array | map | ext => exact hrefuse

theorem readText_takesValue : TakesValue readText := by
  intro bs s rest h
  obtain ⟨mk, tail, hmk, h⟩ := bind_eq_ok_iff.mp h
  cases mk with
  | str len =>
      obtain ⟨text, tail', hlen, h⟩ := bind_eq_ok_iff.mp h
      refine ⟨.str text, Opened.exists_packed (.str ?_) hmk⟩
      cases htext : Text.ofBytes? text <;> rw [htext] at h <;> cases h
      exact hlen
  | bin len =>
      obtain ⟨text, tail', hlen, h⟩ := bind_eq_ok_iff.mp h
      refine ⟨.bin text, Opened.exists_packed (.bin ?_) hmk⟩
      cases htext : Text.ofBytes? text <;> rw [htext] at h <;> cases h
      exact hlen
  | _ => exact absurd h refuse_ne_ok

/-! ### Entries -/

/-- In front of a packed key and value the reader answers what `f` answers for them. -/
def ReadsEntry (r : Reader α) (f : Value × Value → Except DecodeError α) : Prop :=
  ∀ ⦃k v bs bs'⦄, Packed k bs → Packed v bs' → ∀ rest,
    r (bs ++ (bs' ++ rest)) = (f (k, v)).map (·, rest)

/-- Where the reader succeeds it has taken a packed key and a packed value. -/
def TakesEntry (r : Reader α) : Prop :=
  ∀ ⦃bs a rest⦄, r bs = .ok (a, rest) →
    ∃ k v used used', bs = used ++ (used' ++ rest) ∧ Packed k used ∧ Packed v used'

theorem iterate_entries {step : σ → Reader σ}
    {f : σ → Value × Value → Except DecodeError σ}
    (hstep : ∀ s, ReadsEntry (step s) (f s)) {es : List (Value × Value)} {body : List UInt8}
    (h : PackedEntries es body) (s : σ) (rest : List UInt8) :
    iterate step es.length s (body ++ rest) = (es.foldlM f s).map (·, rest) := by
  induction es generalizing body s with
  | nil =>
      cases h
      rfl
  | cons e es ih =>
      cases h with
      | @cons k v _ bs bs' bss hk hv hs =>
          rw [List.append_assoc, List.append_assoc]
          simp only [List.length_cons, iterate, bind_apply, hstep s hk hv (bss ++ rest),
            List.foldlM_cons]
          cases f s (k, v) with
          | error e => rfl
          | ok s' => exact ih hs s'

theorem exists_entries_of_iterate {step : σ → Reader σ} (hstep : ∀ s, TakesEntry (step s))
    {n : Nat} {s s' : σ} {bs rest : List UInt8} (h : iterate step n s bs = .ok (s', rest)) :
    ∃ es used, es.length = n ∧ bs = used ++ rest ∧ PackedEntries es used := by
  induction n generalizing s bs with
  | zero =>
      cases h
      exact ⟨[], [], rfl, rfl, .nil⟩
  | succ n ih =>
      obtain ⟨s₁, bs₁, hfirst, hothers⟩ := bind_eq_ok_iff.mp h
      obtain ⟨k, v, used, used', rfl, hk, hv⟩ := hstep s hfirst
      obtain ⟨es, body, hlen, rfl, hes⟩ := ih hothers
      exact ⟨(k, v) :: es, used ++ (used' ++ body), by simp [hlen], by simp, .cons hk hv hes⟩

theorem readEntry_reads (p : Payload) :
    ReadsEntry (readEntry p) fun e => do
      let a ← Value.assignment e
      return p.insert a.1 a.2 := by
  intro k v bs bs' hk hv rest
  simp only [readEntry, bind_apply, readText_reads hk, Value.assignment]
  cases k.text with
  | error e => rfl
  | ok key =>
      simp only [Except.map, readText_reads hv]
      cases v.text <;> rfl

theorem readEntry_takesEntry (p : Payload) : TakesEntry (readEntry p) := by
  intro bs a rest h
  obtain ⟨key, bs₁, hkey, h⟩ := bind_eq_ok_iff.mp h
  obtain ⟨value, bs₂, hvalue, h⟩ := bind_eq_ok_iff.mp h
  cases h
  obtain ⟨k, used, rfl, hk⟩ := readText_takesValue hkey
  obtain ⟨v, used', rfl, hv⟩ := readText_takesValue hvalue
  exact ⟨k, v, used, used', rfl, hk, hv⟩

/-- Putting entries into data one by one comes to reading all of them first. -/
theorem foldlM_insert (es : List (Value × Value)) (p : Payload) :
    es.foldlM (fun p e => do
        let a ← Value.assignment e
        return p.insert a.1 a.2) p =
      (es.mapM Value.assignment).map fun as => as.foldl (fun p a => p.insert a.1 a.2) p := by
  induction es generalizing p with
  | nil => rfl
  | cons e es ih =>
      rw [List.foldlM_cons, List.mapM_cons]
      cases Value.assignment e with
      | error e => rfl
      | ok a =>
          refine (ih (p.insert a.1 a.2)).trans ?_
          change _ = (do let as ← es.mapM Value.assignment; pure (a :: as)).map _
          cases es.mapM Value.assignment <;> rfl

theorem readData_reads : Reads readData Value.data := by
  intro v bs h rest
  obtain ⟨mk, tail, hmk, ho⟩ := h.exists_opened rest
  have hrefuse : (refuse mk : Reader (Option Payload)) tail = _ := ho.refuse
  refine (bind_of_ok hmk).trans ?_
  cases ho with
  | nil => rfl
  | @map es body tail len hlen hes =>
      have hall := iterate_entries readEntry_reads hes Payload.empty rest
      rw [foldlM_insert] at hall
      refine (bind_of_ok hlen).trans ?_
      rw [bind_apply, hall]
      simp only [Value.data]
      cases es.mapM Value.assignment <;> rfl
  | bool | unsigned | negative | signed | float | str | bin | array | ext => exact hrefuse

theorem readData_takesValue : TakesValue readData := by
  intro bs data rest h
  obtain ⟨mk, tail, hmk, h⟩ := bind_eq_ok_iff.mp h
  cases mk with
  | nil =>
      cases h
      exact ⟨.nil, Opened.exists_packed .nil hmk⟩
  | map len =>
      obtain ⟨n, tail', hlen, h⟩ := bind_eq_ok_iff.mp h
      obtain ⟨p, rest', hall, h⟩ := bind_eq_ok_iff.mp h
      cases h
      obtain ⟨es, body, rfl, rfl, hes⟩ := exists_entries_of_iterate readEntry_takesEntry hall
      exact ⟨.map es, Opened.exists_packed (.map hlen hes) hmk⟩
  | _ => exact absurd h refuse_ne_ok

/-! ### Numbers and keys -/

theorem twosComplement_range {bs : List UInt8} {b : UInt8} (h : (b, bs.length) ∈ signedMarkers) :
    -2 ^ 63 ≤ twosComplement bs ∧ twosComplement bs < 2 ^ 63 := by
  have hlen : bs.length = 1 ∨ bs.length = 2 ∨ bs.length = 4 ∨ bs.length = 8 := by
    simp only [signedMarkers, List.mem_cons, Prod.mk.injEq, List.not_mem_nil, or_false] at h
    omega
  have hlow : -(((256 ^ bs.length : Nat) : Int) / 2) ≤ twosComplement bs :=
    Int.le_bmod (Nat.pow_pos (by decide))
  have hhigh : twosComplement bs < (((256 ^ bs.length : Nat) : Int) + 1) / 2 :=
    Int.bmod_lt (Nat.pow_pos (by decide))
  rcases hlen with hlen | hlen | hlen | hlen <;> rw [hlen] at hlow hhigh <;> omega

theorem readId_reads : Reads readId Value.number := by
  intro v bs h rest
  obtain ⟨mk, tail, hmk, ho⟩ := h.exists_opened rest
  obtain ⟨b, -, hb⟩ := marker_eq_ok_iff.mp hmk
  replace hb := ofByte_eq_iff.mp hb
  refine (bind_of_ok hmk).trans ?_
  cases ho with
  | @unsigned n value tail hn =>
      refine (bind_of_ok hn).trans ?_
      simp only [Value.number, Value.inRange]
      by_cases hlt : n < 0x8000000000000000
      · rw [if_pos hlt, if_pos (by omega)]
        rfl
      · rw [if_neg hlt, if_neg (by omega)]
        rfl
  | negative i =>
      obtain ⟨hb, rfl⟩ := hb
      have hlt := b.toNat_lt
      simp only [Value.number, Value.inRange]
      rw [if_pos (by omega)]
      rfl
  | signed bs =>
      refine (bind_of_ok (take_eq_ok_iff.mpr ⟨rfl, rfl⟩)).trans ?_
      simp only [Value.number, Value.inRange]
      rw [if_pos (twosComplement_range hb)]
      rfl
  | float bs => exact bind_of_ok (take_eq_ok_iff.mpr ⟨rfl, rfl⟩)
  | nil | bool | str | bin | array | map | ext => rfl

theorem readId_takesValue : TakesValue readId := by
  intro bs id rest h
  obtain ⟨mk, tail, hmk, h⟩ := bind_eq_ok_iff.mp h
  cases mk with
  | unsigned value =>
      obtain ⟨n, tail', hn, h⟩ := bind_eq_ok_iff.mp h
      refine ⟨.unsigned n, Opened.exists_packed (.unsigned ?_) hmk⟩
      split at h <;> cases h
      exact hn
  | negative i =>
      cases h
      exact ⟨.signed i, Opened.exists_packed (.negative i) hmk⟩
  | signed width =>
      obtain ⟨number, tail', htake, h⟩ := bind_eq_ok_iff.mp h
      cases h
      obtain ⟨rfl, rfl⟩ := take_eq_ok_iff.mp htake
      exact ⟨_, Opened.exists_packed (.signed number) hmk⟩
  | float width =>
      obtain ⟨_, _, _, h⟩ := bind_eq_ok_iff.mp h
      cases h
  | _ => cases h

theorem readKey_reads : Reads readKey Value.fieldName := by
  intro v bs h rest
  obtain ⟨mk, tail, hmk, ho⟩ := h.exists_opened rest
  have hrefuse : (refuse mk : Reader FieldName) tail = _ := ho.refuse
  refine (bind_of_ok hmk).trans ?_
  cases ho with
  | str h | bin h => exact bind_of_ok h
  | unsigned h => exact bind_of_ok h
  | nil | bool | negative | signed | float | array | map | ext => exact hrefuse

theorem readKey_takesValue : TakesValue readKey := by
  intro bs name rest h
  obtain ⟨mk, tail, hmk, h⟩ := bind_eq_ok_iff.mp h
  cases mk with
  | str len =>
      obtain ⟨text, tail', hlen, h⟩ := bind_eq_ok_iff.mp h
      cases h
      exact ⟨.str text, Opened.exists_packed (.str hlen) hmk⟩
  | bin len =>
      obtain ⟨text, tail', hlen, h⟩ := bind_eq_ok_iff.mp h
      cases h
      exact ⟨.bin text, Opened.exists_packed (.bin hlen) hmk⟩
  | unsigned value =>
      obtain ⟨n, tail', hn, h⟩ := bind_eq_ok_iff.mp h
      cases h
      exact ⟨.unsigned n, Opened.exists_packed (.unsigned hn) hmk⟩
  | _ => exact absurd h refuse_ne_ok

end HookRelay.Wire
