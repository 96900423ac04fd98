import HookRelay.Failure

namespace HookRelay.Supervision

/-- What one run of a task did. -/
structure Run (σ : Type) where
  /-- How long it took, in milliseconds. -/
  took : Nat
  /-- The state it left, also when it broke down. -/
  state : σ
  fault : Option Fault

/-- What a run comes to when a breakdown is caught: its state, or the fault. -/
def Run.caught {σ : Type} (r : Run σ) : Except Fault σ :=
  match r.fault with
  | none => .ok r.state
  | some f => .error f

/-- A fault that was answered with another run. -/
structure Restart where
  /-- How many runs there had been. -/
  runs : Nat
  fault : Fault
  /-- The instant at which it was handled. -/
  time : Nat
  deriving DecidableEq, Repr

/-- The end of a supervised task. -/
structure Outcome (σ : Type) where
  runs : Nat
  state : σ
  time : Nat
  restarts : List Restart

/-- Runs `body` until a run ends without a fault, at most `fuel` times. After
each fault `onFault` sees the state, and the next run starts `delay` later. -/
def restartOnFault {σ : Type} (delay : Nat) (body : Nat → σ → Run σ)
    (onFault : σ → Fault → σ) : (fuel runs now : Nat) → σ → Option (Outcome σ)
  | 0, _, _, _ => none
  | fuel + 1, runs, now, state =>
    let run := body runs state
    let now := now + run.took
    match run.fault with
    | none => some ⟨runs + 1, run.state, now, []⟩
    | some f =>
      (restartOnFault delay body onFault fuel (runs + 1) (now + delay)
        (onFault run.state f)).map fun o =>
          { o with restarts := ⟨runs + 1, f, now⟩ :: o.restarts }

/-- A run that waits and then ends, with or without a fault. -/
structure Act where
  pause : Nat := 0
  fault : Option Fault := none

/-- The run that an act is. It marks the state first, and again if it gets to
its end. -/
def Act.run {σ : Type} (mark : σ → σ) (act : Act) (state : σ) : Run σ :=
  ⟨act.pause, if act.fault.isSome then mark state else mark (mark state), act.fault⟩

/-- Supervises a task whose runs are the acts of a script; a run past its end
does nothing. -/
def runScript (delay : Nat) (script : List Act) : Option (Outcome Unit) :=
  restartOnFault delay (fun k _ => (script.getD k {}).run id ()) (fun s _ => s)
    (script.length + 1) 0 0 ()

end HookRelay.Supervision
