import HookRelay.Payload
import Mathlib.Algebra.Order.Ring.Nat
import Mathlib.Data.List.Induction
import Mathlib.Data.List.Nodup

namespace HookRelay.Payload

theorem insertEntry_of_forall_lt {key value : String} {entries : List (String × String)}
    (h : ∀ e ∈ entries, KeyLt e.1 key) :
    insertEntry key value entries = entries ++ [(key, value)] := by
  induction entries with
  | nil => rfl
  | cons head rest ih =>
      obtain ⟨k, v⟩ := head
      have hlt : KeyLt k key := h (k, v) (by simp)
      have hne : key ≠ k := by
        rintro rfl
        exact KeyLt.irrefl key hlt
      have hnlt : ¬ KeyLt key k := fun h' => KeyLt.irrefl key (h'.trans hlt)
      rw [insertEntry, if_neg hne, if_neg hnlt, ih fun e he => h e (by simp [he])]
      rfl

theorem foldl_insert_of_pairwise (assignments : List (String × String)) (p : Payload)
    (h : (p.entries ++ assignments).Pairwise fun a b => KeyLt a.1 b.1) :
    (assignments.foldl (fun p a => p.insert a.1 a.2) p).entries = p.entries ++ assignments := by
  induction assignments generalizing p with
  | nil => simp
  | cons a rest ih =>
      have hinsert : (p.insert a.1 a.2).entries = p.entries ++ [a] := by
        apply insertEntry_of_forall_lt
        intro e he
        exact (List.pairwise_append.mp h).2.2 e he a (by simp)
      have hrest := ih (p.insert a.1 a.2) (by simpa [hinsert] using h)
      rw [List.foldl_cons, hrest, hinsert, List.append_assoc, List.singleton_append]

theorem ofList_entries (p : Payload) : ofList p.entries = p := by
  apply Payload.ext
  simpa [ofList, empty] using foldl_insert_of_pairwise p.entries empty p.sorted

section Values

variable {key value : String} {p q : Payload}

theorem get?_foldl_insert (assignments : List (String × String)) (p : Payload) (key : String) :
    (assignments.foldl (fun p a => p.insert a.1 a.2) p).get? key =
      (assignments.reverse.lookup key).or (p.get? key) := by
  induction assignments using List.reverseRecOn with
  | nil => rfl
  | append_singleton assignments a ih =>
      rw [List.foldl_append, List.foldl_cons, List.foldl_nil, get?_insert, ih,
        List.reverse_append, List.reverse_singleton, List.singleton_append, lookup_cons_eq]
      split <;> rfl

theorem lookup_eq_some_iff {entries : List (String × String)}
    (h : entries.Pairwise fun a b => KeyLt a.1 b.1) :
    entries.lookup key = some value ↔ (key, value) ∈ entries := by
  induction entries with
  | nil => simp
  | cons head rest ih =>
      obtain ⟨k, v⟩ := head
      obtain ⟨hhead, hrest⟩ := List.pairwise_cons.mp h
      rw [lookup_cons_eq, List.mem_cons, Prod.mk.injEq]
      split
      · next hkey =>
        subst hkey
        have habsent : (key, value) ∉ rest := fun hmem => KeyLt.irrefl key (hhead _ hmem)
        simp [habsent, eq_comm]
      · next hne => simp [hne, ih hrest]

theorem get?_eq_some_iff : p.get? key = some value ↔ (key, value) ∈ p.entries :=
  lookup_eq_some_iff p.sorted

theorem nodup_entries (p : Payload) : p.entries.Nodup := by
  apply p.sorted.imp
  rintro a b hlt rfl
  exact KeyLt.irrefl a.1 hlt

theorem eq_of_get?_eq (h : ∀ key, p.get? key = q.get? key) : p = q := by
  apply Payload.ext
  have hmem : ∀ e, e ∈ p.entries ↔ e ∈ q.entries := by
    rintro ⟨key, value⟩
    rw [← get?_eq_some_iff, ← get?_eq_some_iff, h]
  refine List.Perm.eq_of_pairwise ?_ p.sorted q.sorted
    ((List.perm_ext_iff_of_nodup p.nodup_entries q.nodup_entries).mpr hmem)
  intro a b _ _ hab hba
  exact absurd (hab.trans hba) (KeyLt.irrefl a.1)

end Values

section Room

variable {w : String × String → Nat} {key value : String} {entries : List (String × String)}

theorem sum_insertEntry_le :
    ((insertEntry key value entries).map w).sum ≤ w (key, value) + (entries.map w).sum := by
  induction entries with
  | nil => exact Nat.le_refl _
  | cons head rest ih =>
      obtain ⟨k, v⟩ := head
      unfold insertEntry
      split
      · simp only [List.map_cons, List.sum_cons]
        omega
      · split
        · simp only [List.map_cons, List.sum_cons]
          omega
        · simp only [List.map_cons, List.sum_cons]
          omega

theorem sum_foldl_insert_le (assignments : List (String × String)) (p : Payload) :
    ((assignments.foldl (fun p a => p.insert a.1 a.2) p).entries.map w).sum ≤
      (p.entries.map w).sum + (assignments.map w).sum := by
  induction assignments generalizing p with
  | nil => exact Nat.le_refl _
  | cons a rest ih =>
      have hinsert : ((p.insert a.1 a.2).entries.map w).sum ≤ w a + (p.entries.map w).sum :=
        sum_insertEntry_le
      have hrest := ih (p.insert a.1 a.2)
      rw [List.foldl_cons, List.map_cons, List.sum_cons]
      omega

theorem sum_ofList_le (assignments : List (String × String)) :
    ((ofList assignments).entries.map w).sum ≤ (assignments.map w).sum := by
  have hfold := sum_foldl_insert_le (w := w) assignments empty
  simpa [ofList, empty] using hfold

theorem length_ofList_le (assignments : List (String × String)) :
    (ofList assignments).entries.length ≤ assignments.length := by
  have hsum := sum_ofList_le (w := fun _ => 1) assignments
  simpa [List.map_const'] using hsum

end Room

end HookRelay.Payload
