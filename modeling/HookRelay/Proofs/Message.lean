import HookRelay.Proofs.Wire.RoundTrip

namespace HookRelay

namespace Event

/-- The event after some steps, each of which puts one more entry into its data. -/
def putAll (e : Event) (steps : List (String × String)) : Event :=
  steps.foldl (fun e s => e.put s.1 s.2) e

/-- What is under a key in the end: the value of the last step for the key, or what was there. -/
def finally? (e : Event) (steps : List (String × String)) (key : String) : Option String :=
  (steps.reverse.lookup key).or (e.data.bind (·.get? key))

variable {e : Event} {steps steps' : List (String × String)} {key : String}

theorem kind_putAll (e : Event) (steps : List (String × String)) :
    (e.putAll steps).kind = e.kind := by
  induction steps generalizing e with
  | nil => rfl
  | cons s steps ih => exact ih (e.put s.1 s.2)

theorem getD_putAll (e : Event) (steps : List (String × String)) :
    (e.putAll steps).data.getD .empty =
      steps.foldl (fun p s => p.insert s.1 s.2) (e.data.getD .empty) := by
  induction steps generalizing e with
  | nil => rfl
  | cons s steps ih => exact ih (e.put s.1 s.2)

theorem isSome_putAll : (e.putAll steps).data.isSome ↔ e.data.isSome ∨ steps ≠ [] := by
  induction steps generalizing e with
  | nil => simp [putAll]
  | cons s steps ih =>
      change ((e.put s.1 s.2).putAll steps).data.isSome ↔ _
      simp [ih, put]

theorem bind_get? (data : Option Payload) (key : String) :
    data.bind (·.get? key) = (data.getD .empty).get? key := by
  cases data <;> rfl

theorem get?_putAll (e : Event) (steps : List (String × String)) (key : String) :
    (e.putAll steps).data.bind (·.get? key) = e.finally? steps key := by
  rw [bind_get?, getD_putAll, Payload.get?_foldl_insert, ← bind_get?]
  rfl

theorem exists_finally? (e : Event) (h : steps ≠ []) :
    ∃ key, (e.finally? steps key).isSome := by
  obtain ⟨front, s, rfl⟩ := (List.eq_nil_or_concat' steps).resolve_left h
  refine ⟨s.1, ?_⟩
  simp [finally?]

theorem data_putAll_eq_none_iff :
    (e.putAll steps).data = none ↔ e.data = none ∧ ∀ key, e.finally? steps key = none := by
  constructor
  · intro h
    refine ⟨?_, fun key => by rw [← get?_putAll, h, Option.bind_none]⟩
    by_contra hdata
    have hsome : (e.putAll steps).data.isSome :=
      isSome_putAll.mpr (.inl (Option.isSome_iff_ne_none.mpr hdata))
    simp [h] at hsome
  · rintro ⟨hdata, hfinally⟩
    have hsteps : steps = [] := by
      by_contra h
      obtain ⟨key, hkey⟩ := e.exists_finally? h
      simp [hfinally] at hkey
    rw [hsteps]
    exact hdata

/-- Steps that come to the same values come to the same event, and no others do. -/
theorem putAll_eq_iff :
    e.putAll steps = e.putAll steps' ↔ ∀ key, e.finally? steps key = e.finally? steps' key := by
  constructor
  · intro h key
    rw [← get?_putAll, h, get?_putAll]
  · intro h
    have hnone : (e.putAll steps).data = none ↔ (e.putAll steps').data = none := by
      simp only [data_putAll_eq_none_iff, h]
    have hvalues : (e.putAll steps).data.getD .empty = (e.putAll steps').data.getD .empty := by
      apply Payload.eq_of_get?_eq
      intro key
      rw [← bind_get?, ← bind_get?, get?_putAll, get?_putAll, h]
    have hdata : (e.putAll steps).data = (e.putAll steps').data := by
      cases hp : (e.putAll steps).data with
      | none => exact (hnone.mp hp).symm
      | some p =>
          obtain ⟨q, hq⟩ : ∃ q, (e.putAll steps').data = some q := by
            apply Option.ne_none_iff_exists'.mp
            rw [Ne, ← hnone, hp]
            exact Option.some_ne_none p
          rw [hp, hq] at hvalues
          rw [hq]
          exact congrArg some hvalues
    have hkind : (e.putAll steps).kind = (e.putAll steps').kind := by
      rw [kind_putAll, kind_putAll]
    cases hleft : e.putAll steps
    cases hright : e.putAll steps'
    simp_all

end Event

namespace Wire

/-- The tree of data that has exactly these values, each key once and the keys in the ascending
order of their bytes. -/
def Value.ListsInOrder (values : String → Option String) : Value → Prop
  | nil => ∀ key, values key = none
  | map es => ∃ entries : List (String × String), es = entries.map ofEntry ∧
      entries.Pairwise (fun a b => Text.bytes a.1 < Text.bytes b.1) ∧
      ∀ key value, (key, value) ∈ entries ↔ values key = some value
  | _ => False

theorem listsInOrder_ofData (data : Option Payload) :
    (Value.ofData data).ListsInOrder fun key => data.bind (·.get? key) := by
  cases data with
  | none => exact fun _ => rfl
  | some p => exact ⟨p.entries, rfl, p.sorted, fun _ _ => Payload.get?_eq_some_iff.symm⟩

/-- The last step for a key tells what a message says under it, and this is all that the
message and its frames depend on: steps in another order, or with values that are replaced
later, give the same bytes, and in them the keys of the data ascend. -/
theorem putAll_canonical (e : Event) (steps steps' : List (String × String)) (id : Int64) :
    (∀ key, (Message.ofEvent (e.putAll steps) id).get? key = e.finally? steps key) ∧
    ((∀ key, e.finally? steps key = e.finally? steps' key) ↔
      e.putAll steps = e.putAll steps') ∧
    ((∀ key, e.finally? steps key = e.finally? steps' key) → ∀ id maxLen,
      encodeFrame (.ofEvent (e.putAll steps) id) maxLen =
        encodeFrame (.ofEvent (e.putAll steps') id) maxLen) ∧
    ∀ maxLen frame, encodeFrame (.ofEvent (e.putAll steps) id) maxLen = .ok frame →
      ∃ data : Value, data.ListsInOrder (e.finally? steps) ∧
        Packed (.map [(.str (Text.bytes "Type"), .str (Text.bytes e.kind)),
          (.str (Text.bytes "Data"), data), (.str (Text.bytes "ID"), .ofInt id.toInt)])
          (frame.drop 2) := by
  refine ⟨e.get?_putAll steps, Event.putAll_eq_iff.symm, ?_, ?_⟩
  · intro h id maxLen
    rw [Event.putAll_eq_iff.mpr h]
  · intro maxLen frame hframe
    obtain ⟨-, hmax, rfl⟩ := encodeFrame_eq_ok_iff.mp hframe
    have hpackable : IsPackable (.ofEvent (e.putAll steps) id) := by
      apply isPackable_of_length
      rw [maxPayload] at hmax
      omega
    refine ⟨.ofData (e.putAll steps).data, ?_, ?_⟩
    · rw [← funext (e.get?_putAll steps)]
      exact listsInOrder_ofData _
    · rw [List.drop_left' (length_beBytes 2 _), ← e.kind_putAll steps]
      exact packed_encode hpackable

/-- The start is replaced under one key, another key is set twice, and the keys have three
and four bytes. -/
theorem putAll_canonical_overwritten :
    let e : Event := .chat "x"
    let steps := [("😀", "1"), ("\uffff", "2"), ("body", "y"), ("😀", "3")]
    let steps' := [("body", "y"), ("😀", "3"), ("\uffff", "2")]
    (Message.ofEvent (e.putAll steps) 7).get? "😀" = some "3" ∧
      (∀ key, e.finally? steps key = e.finally? steps' key) ∧
      (∀ maxLen, encodeFrame (.ofEvent (e.putAll steps) 7) maxLen =
        encodeFrame (.ofEvent (e.putAll steps') 7) maxLen) ∧
      ∃ frame, encodeFrame (.ofEvent (e.putAll steps) 7) 64 = .ok frame ∧
        ∃ data : Value, data.ListsInOrder (e.finally? steps) := by
  intro e steps steps'
  obtain ⟨hget, hsame, hframes, hordered⟩ := putAll_canonical e steps steps' 7
  have hfinally : ∀ key, e.finally? steps key = e.finally? steps' key := hsame.mpr (by decide)
  let m : Message := .ofEvent (e.putAll steps) 7
  have hframe : encodeFrame m 64 = .ok (beBytes 2 (encode m).length ++ encode m) :=
    encodeFrame_eq_ok_iff.mpr ⟨by decide, by decide, rfl⟩
  obtain ⟨data, hdata, -⟩ := hordered 64 _ hframe
  exact ⟨(hget "😀").trans (by decide), hfinally, hframes hfinally 7, _, hframe, data, hdata⟩

end Wire

end HookRelay
