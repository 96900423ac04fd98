import Mathlib.Data.List.Induction

namespace HookRelay.Steps

variable {σ α β : Type}

/-- The state after all these steps, if they can be taken one after another. -/
def run (next : α → σ → Option σ) : List α → σ → Option σ
  | [], s => some s
  | a :: as, s => (next a s).bind (run next as)

/-- What can be seen of the steps, each looked at in the state in which it is taken. -/
def seen (next : α → σ → Option σ) (look : α → σ → List β) :
    List α → σ → List β
  | [], _ => []
  | a :: as, s => (next a s).elim [] fun s' => look a s ++ seen next look as s'

variable {next : α → σ → Option σ} {look : α → σ → List β} {as bs : List α} {a : α}
  {s s' s'' : σ}

theorem run_append (hrun : run next as s = some s') :
    run next (as ++ bs) s = run next bs s' := by
  induction as generalizing s with
  | nil =>
      cases hrun
      rfl
  | cons a as ih =>
      obtain ⟨s₁, hnext, hrun⟩ := Option.bind_eq_some_iff.mp hrun
      rw [List.cons_append, run, hnext]
      exact ih hrun

theorem seen_append (hrun : run next as s = some s') :
    seen next look (as ++ bs) s = seen next look as s ++ seen next look bs s' := by
  induction as generalizing s with
  | nil =>
      cases hrun
      rfl
  | cons a as ih =>
      obtain ⟨s₁, hnext, hrun⟩ := Option.bind_eq_some_iff.mp hrun
      simp only [List.cons_append, seen, hnext, Option.elim_some]
      rw [ih hrun, List.append_assoc]

theorem run_singleton (hnext : next a s = some s') : run next [a] s = some s' := by
  rw [run, hnext]
  rfl

theorem seen_singleton (hnext : next a s = some s') : seen next look [a] s = look a s := by
  rw [seen, hnext]
  exact List.append_nil _

theorem run_concat (hrun : run next as s = some s') (hnext : next a s' = some s'') :
    run next (as ++ [a]) s = some s'' := by
  rw [run_append hrun, run_singleton hnext]

theorem seen_concat (hrun : run next as s = some s') (hnext : next a s' = some s'') :
    seen next look (as ++ [a]) s = seen next look as s ++ look a s' := by
  rw [seen_append hrun, seen_singleton hnext]

/-- Nothing is seen of steps of which none shows anything, as long as each keeps to the states
where this is so. -/
theorem seen_eq_nil {P : σ → Prop} (hs : P s)
    (hstep : ∀ a ∈ as, ∀ s s', P s → next a s = some s' → look a s = [] ∧ P s') :
    seen next look as s = [] := by
  induction as generalizing s with
  | nil => rfl
  | cons a as ih =>
      cases hnext : next a s with
      | none => rw [seen, hnext, Option.elim_none]
      | some s' =>
          obtain ⟨hlook, hs'⟩ := hstep a List.mem_cons_self s s' hs hnext
          rw [seen, hnext, Option.elim_some, hlook, List.nil_append]
          exact ih hs' fun b hb => hstep b (List.mem_cons_of_mem a hb)

theorem exists_of_run_append (hrun : run next (as ++ bs) s = some s'') :
    ∃ s', run next as s = some s' ∧ run next bs s' = some s'' := by
  induction as generalizing s with
  | nil => exact ⟨s, rfl, hrun⟩
  | cons a as ih =>
      obtain ⟨s₁, hnext, hrun⟩ := Option.bind_eq_some_iff.mp hrun
      obtain ⟨s', hrun', hrest⟩ := ih hrun
      refine ⟨s', ?_, hrest⟩
      rw [run, hnext]
      exact hrun'

theorem exists_of_concat_eq {before after : List α} {b : α}
    (h : as ++ [a] = before ++ b :: after) :
    (as = before ∧ a = b) ∨ ∃ after', as = before ++ b :: after' := by
  rcases List.eq_nil_or_concat after with rfl | ⟨after', b', rfl⟩
  · obtain ⟨hbefore, hlast⟩ := List.append_inj' h rfl
    exact .inl ⟨hbefore, List.singleton_inj.mp hlast⟩
  · rw [List.concat_eq_append, ← List.cons_append, ← List.append_assoc] at h
    exact .inr ⟨after', (List.append_inj' h rfl).1⟩

/-- What holds at the start of a run, and is kept by each of its steps, holds at its
end. -/
theorem run_induction {P : List α → σ → Prop} {start : σ} (nil : P [] start)
    (concat : ∀ as a s s', run next as start = some s → P as s → next a s = some s' →
      P (as ++ [a]) s') (hrun : run next as start = some s) : P as s := by
  induction as using List.reverseRecOn generalizing s with
  | nil =>
      cases hrun
      exact nil
  | append_singleton as a ih =>
      obtain ⟨s', hrun', hlast⟩ := exists_of_run_append hrun
      obtain ⟨s'', hnext, hs⟩ := Option.bind_eq_some_iff.mp hlast
      cases hs
      exact concat as a s' s hrun' (ih hrun') hnext

theorem seen_map {γ : Type} {look' : α → σ → List γ} {f : β → γ}
    (hlook : ∀ a s s', next a s = some s' → look' a s = (look a s).map f)
    (as : List α) (s : σ) :
    seen next look' as s = (seen next look as s).map f := by
  induction as generalizing s with
  | nil => rfl
  | cons a as ih =>
      cases hnext : next a s with
      | none => rw [seen, seen, hnext, Option.elim_none, Option.elim_none, List.map_nil]
      | some s' =>
          rw [seen, seen, hnext, Option.elim_some, Option.elim_some, List.map_append, ← ih,
            hlook a s s' hnext]

/-- Some steps of a kind lead from one state to the other. -/
def Reaches (next : α → σ → Option σ) (kind : α → Prop) (s s' : σ) : Prop :=
  ∃ as, (∀ a ∈ as, kind a) ∧ run next as s = some s'

namespace Reaches

variable {kind kind' : α → Prop}

theorem refl : Reaches next kind s s := ⟨[], nofun, rfl⟩

theorem single (hkind : kind a) (hnext : next a s = some s') : Reaches next kind s s' := by
  refine ⟨[a], fun b hb => ?_, run_singleton hnext⟩
  rwa [List.mem_singleton.mp hb]

theorem trans (h : Reaches next kind s s') (h' : Reaches next kind s' s'') :
    Reaches next kind s s'' := by
  obtain ⟨as, hkind, hrun⟩ := h
  obtain ⟨bs, hkind', hrun'⟩ := h'
  refine ⟨as ++ bs, fun a ha => ?_, (run_append hrun).trans hrun'⟩
  exact (List.mem_append.mp ha).elim (hkind a) (hkind' a)

theorem mono (hkind : ∀ a, kind a → kind' a) (h : Reaches next kind s s') :
    Reaches next kind' s s' := by
  obtain ⟨as, has, hrun⟩ := h
  exact ⟨as, fun a ha => hkind a (has a ha), hrun⟩

theorem keeps {P : σ → Prop} (h : Reaches next kind s s') (hs : P s)
    (hstep : ∀ a s s', kind a → next a s = some s' → P s → P s') : P s' := by
  obtain ⟨as, hkind, hrun⟩ := h
  induction as generalizing s with
  | nil =>
      cases hrun
      exact hs
  | cons a as ih =>
      obtain ⟨s₁, hnext, hrun⟩ := Option.bind_eq_some_iff.mp hrun
      refine ih (hstep a s s₁ (hkind a List.mem_cons_self) hnext hs) ?_ hrun
      exact fun b hb => hkind b (List.mem_cons_of_mem a hb)

end Reaches

end HookRelay.Steps
