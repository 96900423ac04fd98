/-!
How tasks that may or may not be able to move are given their turns, and how time
passes between turns. A task is a function that declines by giving `none`.
-/

namespace HookRelay.Schedule

variable {σ : Type}

/-- Gives a task its turn again and again until it declines, at most `fuel`
times. Declines if the task never moved. -/
def exhaust (task : σ → Option σ) : (fuel : Nat) → σ → Option σ
  | 0, _ => none
  | fuel + 1, s => (task s).map fun s' => (exhaust task fuel s').getD s'

/-- Gives each task one turn. Declines if none of them moved. -/
def inTurn (tasks : List (σ → Option σ)) (s : σ) : Option σ :=
  tasks.foldl (fun moved task => (task (moved.getD s)).or moved) none

/-- The jumps in which the clock moves, in milliseconds: a tenth of a second each,
and what is left at the end. -/
def jumps (ms : Nat) : List Nat :=
  List.replicate (ms / 100) 100 ++ if ms % 100 = 0 then [] else [ms % 100]

end HookRelay.Schedule
