import HookRelay.Text.Utf8
/-!
The data that an event carries: texts under text keys, each key once, in the
ascending order of the keys' bytes. That order is the one in which the entries
travel, so equal data have equal encodings.
-/

namespace HookRelay

/-- Keys compare by the bytes of their UTF-8 form. -/
def KeyLt (a b : String) : Prop :=
  Text.bytes a < Text.bytes b

instance (a b : String) : Decidable (KeyLt a b) :=
  inferInstanceAs (Decidable (Text.bytes a < Text.bytes b))

namespace KeyLt

theorem irrefl (a : String) : ¬ KeyLt a a :=
  List.lt_irrefl (Text.bytes a)

theorem trans {a b c : String} (hab : KeyLt a b) (hbc : KeyLt b c) : KeyLt a c :=
  List.lt_trans hab hbc

theorem of_not_lt {a b : String} (hne : a ≠ b) (hlt : ¬ KeyLt a b) : KeyLt b a := by
  apply Classical.byContradiction
  intro h
  have hle : Text.bytes a ≤ Text.bytes b := List.not_lt.mp h
  have hge : Text.bytes b ≤ Text.bytes a := List.not_lt.mp hlt
  exact hne (Text.bytes_inj.mp (List.le_antisymm hle hge))

end KeyLt

namespace Payload

/-- Puts a value under a key into a list of entries in key order. -/
def insertEntry (key value : String) : List (String × String) → List (String × String)
  | [] => [(key, value)]
  | (k, v) :: rest =>
    if key = k then (key, value) :: rest
    else if KeyLt key k then (key, value) :: (k, v) :: rest
    else (k, v) :: insertEntry key value rest

theorem mem_insertEntry {key value : String} {entries : List (String × String)}
    {e : String × String} (h : e ∈ insertEntry key value entries) :
    e.1 = key ∨ e ∈ entries := by
  induction entries with
  | nil => simp_all [insertEntry]
  | cons head rest ih =>
    obtain ⟨k, v⟩ := head
    simp only [insertEntry] at h
    split at h
    · simp only [List.mem_cons] at h ⊢
      rcases h with rfl | h
      · exact .inl rfl
      · exact .inr (.inr h)
    · split at h
      · simp only [List.mem_cons] at h ⊢
        rcases h with rfl | h
        · exact .inl rfl
        · exact .inr h
      · simp only [List.mem_cons] at h ⊢
        rcases h with rfl | h
        · exact .inr (.inl rfl)
        · rcases ih h with h | h
          · exact .inl h
          · exact .inr (.inr h)

theorem pairwise_insertEntry (key value : String) {entries : List (String × String)}
    (h : entries.Pairwise (fun a b => KeyLt a.1 b.1)) :
    (insertEntry key value entries).Pairwise (fun a b => KeyLt a.1 b.1) := by
  induction entries with
  | nil => simp [insertEntry]
  | cons head rest ih =>
    obtain ⟨k, v⟩ := head
    rw [List.pairwise_cons] at h
    simp only [insertEntry]
    split
    · next heq =>
      subst heq
      exact List.pairwise_cons.mpr h
    · next hne =>
      split
      · next hlt =>
        refine List.pairwise_cons.mpr ⟨?_, List.pairwise_cons.mpr h⟩
        intro e he
        rcases List.mem_cons.mp he with rfl | he
        · exact hlt
        · exact hlt.trans (h.1 e he)
      · next hnlt =>
        refine List.pairwise_cons.mpr ⟨?_, ih h.2⟩
        intro e he
        rcases mem_insertEntry he with he | he
        · rw [he]
          exact KeyLt.of_not_lt hne hnlt
        · exact h.1 e he

end Payload

/-- The data of an event. -/
structure Payload where
  entries : List (String × String)
  sorted : entries.Pairwise (fun a b => KeyLt a.1 b.1)
  deriving DecidableEq

namespace Payload

/-- Data without entries, which is not the same as no data. -/
def empty : Payload := ⟨[], .nil⟩

/-- The data with a key set to a value, in place of any earlier value of the key. -/
def insert (p : Payload) (key value : String) : Payload :=
  ⟨insertEntry key value p.entries, pairwise_insertEntry key value p.sorted⟩

def get? (p : Payload) (key : String) : Option String :=
  p.entries.lookup key

/-- The data that a list of assignments builds up; the last one of a key counts. -/
def ofList (assignments : List (String × String)) : Payload :=
  assignments.foldl (fun p a => p.insert a.1 a.2) empty

theorem ext {p q : Payload} (h : p.entries = q.entries) : p = q := by
  cases p
  cases q
  simp_all

theorem lookup_cons_eq (k key value : String) (rest : List (String × String)) :
    ((key, value) :: rest).lookup k = if k = key then some value else rest.lookup k := by
  rw [List.lookup_cons]
  by_cases hk : k = key
  · simp [hk]
  · simp [hk, beq_eq_false_iff_ne.mpr hk]

theorem get?_insert (p : Payload) (key value k : String) :
    (p.insert key value).get? k = if k = key then some value else p.get? k := by
  obtain ⟨entries, sorted⟩ := p
  simp only [get?, insert]
  clear sorted
  induction entries with
  | nil => simp [insertEntry]
  | cons head rest ih =>
    obtain ⟨k', v'⟩ := head
    simp only [insertEntry]
    split
    · next h =>
      subst h
      simp only [lookup_cons_eq]
      split <;> rfl
    · next hne =>
      split
      · simp only [lookup_cons_eq]
      · simp only [lookup_cons_eq, ih]
        by_cases hk : k = k'
        · simp [hk, Ne.symm hne]
        · simp [hk]

end Payload

end HookRelay
