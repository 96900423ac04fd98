import HookRelay.Supervision
import Mathlib.Algebra.BigOperators.Intervals

namespace HookRelay.Supervision

open Finset

section

variable {σ : Type} (delay start : Nat) (body : Nat → σ → Run σ)
  (onFault : σ → Fault → σ) (s : σ)

/-- The state that a run leaves once its fault, if it has one, has been handled. -/
def Run.handled (onFault : σ → Fault → σ) (r : Run σ) : σ :=
  r.fault.elim r.state (onFault r.state)

/-- The run after `i` others, if every one of them is followed by another. -/
def runAt : Nat → Run σ
  | 0 => body 0 s
  | i + 1 => body (i + 1) ((runAt i).handled onFault)

/-- The instant at which the run after `i` others ends. -/
def endAt : Nat → Nat
  | 0 => start + (runAt body onFault s 0).took
  | i + 1 => endAt i + delay + (runAt body onFault s (i + 1)).took

/-- What is on record of the run after `i` others if it has a fault. -/
def restart? (i : Nat) : Option Restart :=
  (runAt body onFault s i).fault.map fun f => ⟨i + 1, f, endAt delay start body onFault s i⟩

/-- The end of the task with the run after `n` others, if these restarts were made before. -/
def outcomeAt (n : Nat) (restarts : List Restart) : Outcome σ :=
  ⟨n + 1, (runAt body onFault s n).state, endAt delay start body onFault s n, restarts⟩

end

variable {σ : Type} {delay start : Nat} {body : Nat → σ → Run σ}
  {onFault : σ → Fault → σ} {s : σ}

theorem endAt_eq (i : Nat) : endAt delay start body onFault s i =
    start + ∑ j ∈ range (i + 1), (runAt body onFault s j).took + i * delay := by
  induction i with
  | zero => simp [endAt]
  | succ i ih =>
      rw [endAt, ih, sum_range_succ _ (i + 1), Nat.succ_mul]
      omega

theorem runAt_succ {i : Nat} {f : Fault} (hfault : (runAt body onFault s i).fault = some f) :
    runAt body onFault s (i + 1) = body (i + 1) (onFault (runAt body onFault s i).state f) := by
  rw [runAt, Run.handled, hfault, Option.elim_some]

theorem restart?_of_fault {i : Nat} {f : Fault}
    (hfault : (runAt body onFault s i).fault = some f) :
    restart? delay start body onFault s i =
      some ⟨i + 1, f, endAt delay start body onFault s i⟩ := by
  rw [restart?, hfault, Option.map_some]

theorem getElem?_restarts {n : Nat} (hfaults : ∀ i < n, (runAt body onFault s i).fault ≠ none) :
    ((List.range n).filterMap (restart? delay start body onFault s)).length = n ∧
      ∀ i < n, ((List.range n).filterMap (restart? delay start body onFault s))[i]? =
        restart? delay start body onFault s i := by
  induction n with
  | zero => exact ⟨rfl, nofun⟩
  | succ n ih =>
      obtain ⟨hlength, hrecord⟩ := ih fun i hi => hfaults i (Nat.lt_succ_of_lt hi)
      obtain ⟨f, hfault⟩ := Option.ne_none_iff_exists'.mp (hfaults n (Nat.lt_succ_self n))
      have hlast : restart? delay start body onFault s n = some _ := restart?_of_fault hfault
      rw [List.range_succ, List.filterMap_append, List.filterMap_cons_some hlast,
        List.filterMap_nil]
      refine ⟨by rw [List.length_append, hlength, List.length_singleton], fun i hi => ?_⟩
      rcases Nat.lt_succ_iff_lt_or_eq.mp hi with hlt | rfl
      · rw [List.getElem?_append_left (by omega), hrecord i hlt]
      · rw [List.getElem?_append_right (by omega), hlength, Nat.sub_self, hlast]
        rfl

/-- The rest of a task, from the run after `k` others on: `d` runs with a fault, and the run
after `n` others without one. -/
theorem restartOnFault_from {d k n now : Nat} {state : σ} (hn : k + d = n)
    (hrun : body k state = runAt body onFault s k)
    (hnow : now + (runAt body onFault s k).took = endAt delay start body onFault s k)
    (hfaults : ∀ i < n, (runAt body onFault s i).fault ≠ none)
    (hclean : (runAt body onFault s n).fault = none) (fuel : Nat) :
    restartOnFault delay body onFault fuel k now state =
      if d < fuel then
        some (outcomeAt delay start body onFault s n
          ((List.range' k d).filterMap (restart? delay start body onFault s)))
      else none := by
  induction d generalizing k now state fuel with
  | zero =>
      obtain rfl : k = n := hn
      cases fuel with
      | zero => rfl
      | succ fuel =>
          simp only [restartOnFault, hrun, hclean, hnow]
          rfl
  | succ d ih =>
      cases fuel with
      | zero => rfl
      | succ fuel =>
          obtain ⟨f, hfault⟩ := Option.ne_none_iff_exists'.mp (hfaults k (by omega))
          have hrest := ih (k := k + 1) (by omega) (runAt_succ hfault).symm rfl fuel
          simp only [restartOnFault, hrun, hfault, hnow, hrest]
          rw [List.range'_succ, List.filterMap_cons_some (restart?_of_fault hfault)]
          by_cases hfuel : d < fuel
          · rw [if_pos hfuel, if_pos (Nat.succ_lt_succ hfuel)]
            rfl
          · rw [if_neg hfuel, if_neg (mt Nat.lt_of_succ_lt_succ hfuel)]
            rfl

theorem restartOnFault_eq_none {k now : Nat} {state : σ}
    (hrun : body k state = runAt body onFault s k)
    (hfaults : ∀ i, (runAt body onFault s i).fault ≠ none) (fuel : Nat) :
    restartOnFault delay body onFault fuel k now state = none := by
  induction fuel generalizing k now state with
  | zero => rfl
  | succ fuel ih =>
      obtain ⟨f, hfault⟩ := Option.ne_none_iff_exists'.mp (hfaults k)
      simp only [restartOnFault, hrun, hfault, ih (runAt_succ hfault).symm, Option.map_none]

/-- A supervised task ends with its first run that has no fault, and tells how many runs there
were. Each run starts from the state that the run before it left, although it broke down, and
that the handler of its fault changed. The handler is called once for each run but the last
one, in order, with that run's fault, at the instant at which the run ends, so before the
pause; the task ends with its last run. A fault without a text has a text of its own. -/
theorem restartOnFault_folds {σ : Type} (delay start : Nat) (body : Nat → σ → Run σ)
    (onFault : σ → Fault → σ) (s : σ) :
    let run := runAt body onFault s
    run 0 = body 0 s ∧
    (∀ i f, (run i).fault = some f → run (i + 1) = body (i + 1) (onFault (run i).state f)) ∧
    (∀ n, (∀ i < n, (run i).fault ≠ none) → (run n).fault = none →
      ∃ o : Outcome σ,
        (∀ fuel, restartOnFault delay body onFault fuel 0 start s =
          if n < fuel then some o else none) ∧
        o.runs = n + 1 ∧ o.state = (run n).state ∧
        o.time = start + ∑ j ∈ range (n + 1), (run j).took + n * delay ∧
        o.restarts.length = n ∧
        ∀ i < n, ∃ f, (run i).fault = some f ∧ o.restarts[i]? =
          some ⟨i + 1, f, start + ∑ j ∈ range (i + 1), (run j).took + i * delay⟩) ∧
    ((∀ i, (run i).fault ≠ none) → ∀ fuel,
      restartOnFault delay body onFault fuel 0 start s = none) ∧
    (∀ text, (Fault.reason text).text = text) ∧
    Fault.noReason.text = "unknown panic payload" := by
  refine ⟨rfl, fun i f => runAt_succ, fun n hfaults hclean => ?_, restartOnFault_eq_none rfl,
    fun _ => rfl, rfl⟩
  obtain ⟨hlength, hrecord⟩ := @getElem?_restarts σ delay start body onFault s n hfaults
  refine ⟨outcomeAt delay start body onFault s n _, fun fuel => ?_, rfl, rfl, endAt_eq n,
    hlength, fun i hi => ?_⟩
  · rw [restartOnFault_from (Nat.zero_add n) rfl rfl hfaults hclean fuel, List.range_eq_range']
  · obtain ⟨f, hfault⟩ := Option.ne_none_iff_exists'.mp (hfaults i hi)
    refine ⟨f, hfault, ?_⟩
    rw [← endAt_eq, ← restart?_of_fault hfault]
    exact hrecord i hi

/-- The first run breaks down with a text and the second without one; the handler changes the
state. -/
theorem restartOnFault_folds_two_faults :
    let body : Nat → Nat → Run Nat := fun i state =>
      ⟨10 * (i + 1), state + 1,
        if state = 0 then some (.reason "first run")
        else if state = 11 then some .noReason else none⟩
    let onFault : Nat → Fault → Nat := fun state _ => state + 10
    ∃ o, restartOnFault 100 body onFault 3 0 0 0 = some o ∧
      restartOnFault 100 body onFault 2 0 0 0 = none ∧
      o.runs = 3 ∧ o.state = 23 ∧ o.time = 260 ∧ o.restarts.length = 2 ∧
      o.restarts[1]? = some ⟨2, .noReason, 130⟩ := by
  intro body onFault
  obtain ⟨-, -, hends, -⟩ := restartOnFault_folds 100 0 body onFault 0
  obtain ⟨o, hfuel, hruns, hstate, htime, hlength, hrestarts⟩ := hends 2 (by decide) (by decide)
  obtain ⟨f, hfault, hsecond⟩ := hrestarts 1 (by decide)
  obtain rfl : Fault.noReason = f := Option.some.inj hfault
  exact ⟨o, hfuel 3, hfuel 2, hruns, hstate, htime, hlength, hsecond⟩

end HookRelay.Supervision
