import HookRelay.Proofs.EventLoop.Turns
import HookRelay.Proofs.Steps
/-!
An event loop among its clients. Between the steps of the loop and of its callers, the
clients' connections take messages out of their queues, stop, and bring messages to the
intake for messages, in any order.
-/

namespace HookRelay.EventLoop

/-- What can happen to an event loop and its clients. -/
inductive Happening where
  | step (now : Nat) (a : Action)
  /-- A client's connection takes the oldest message out of the client's queue. -/
  | takeInbox (client : Nat)
  | dropInbox (client : Nat)
  | stopClient (client : Nat)
  /-- A client's message comes to the intake for messages. -/
  | bring (ticket : Nat) (m : Message)
  /-- A client whose message waits in line at that intake takes it back. -/
  | leave (ticket : Nat)
  | dropMessageSender
  | note (entries : List LogEntry)
  deriving DecidableEq

/-- Changes the client at a position. -/
def modifyClient (k : Nat) (f : Client → Client) (l : EventLoop) : EventLoop :=
  { l with registry := l.registry.modify k f }

def happen (h : Happening) (l : EventLoop) : Option EventLoop :=
  match h with
  | .step now a => l.step now a
  | .takeInbox k => some (l.modifyClient k fun c => { c with inbox := c.inbox.take.2 })
  | .dropInbox k => some (l.modifyClient k fun c => { c with inbox := c.inbox.dropReceiver })
  | .stopClient k => some (l.modifyClient k fun c => { c with stopped := true })
  | .bring ticket m => some { l with outbox := (l.outbox.bring ticket m).2 }
  | .leave ticket => some { l with outbox := l.outbox.leave ticket }
  | .dropMessageSender => some { l with outbox := l.outbox.dropSender }
  | .note entries => some (l.write entries)

/-- The loop after all this has happened to it, if it can. -/
def run (hs : List Happening) (l : EventLoop) : Option EventLoop := Steps.run happen hs l

/-- Whatever happens, a loop keeps the capacity of its clients' queues, and goes on to stop once
it has been told to. -/
structure Retains (l l' : EventLoop) : Prop where
  capacity : l'.registry.capacity = l.registry.capacity
  stopping : l.stopping = true → l'.stopping = true

variable {l l' : EventLoop} {a : Action} {h : Happening} {now : Nat}

namespace Retains

theorem checkOver (h : Retains l l') : Retains l l'.checkOver := by
  unfold EventLoop.checkOver
  split
  · exact h
  · exact ⟨h.capacity, h.stopping⟩

theorem register (h : Retains l l') (socket : Nat) : Retains l (l'.register socket) := by
  rw [EventLoop.register, Registry.register]
  cases (Mailbox.create l'.registry.capacity : Except CapacityError (Mailbox Message)) with
  | error e => exact ⟨h.capacity, h.stopping⟩
  | ok inbox => exact ⟨h.capacity, h.stopping⟩

theorem bringAsk (h : Retains l l') (ticket : Nat) (ask : Ask) :
    Retains l (bringAsk ticket ask l') := by
  have hsettle : ∀ (entry : Entry) {l' : EventLoop}, Retains l l' →
      Retains l (settleCall ticket entry l') := by
    intro entry l' h
    cases entry with
    | accepted | refused | waits => exact ⟨h.capacity, h.stopping⟩
  cases ask with
  | event e => exact hsettle _ ⟨h.capacity, h.stopping⟩
  | command c => exact hsettle _ ⟨h.capacity, h.stopping⟩

end Retains

theorem Turn.retains (hturn : Turn now l a l') : Retains l l' := by
  cases hturn with
  | noEvent | noCommand | noRequest => exact .checkOver ⟨rfl, id⟩
  | @request socket requests =>
      have hretains : Retains l { l with requests } := ⟨rfl, id⟩
      exact hretains.register socket
  | quits | event | command | message => exact ⟨rfl, id⟩

theorem Around.retains (haround : Around l a l') : Retains l l' := by
  cases haround with
  | @bring ticket _ ask =>
      have hretains : Retains l { l with begun := l.begun.eraseP (·.1 == ticket) } := ⟨rfl, id⟩
      exact hretains.bringAsk ticket ask
  | callRefused | call | serveEvent | serveCommand | requestRefused | request | requestLetIn
  | requestDismissed | serveMessage | addEventSender | dropEventSender | dropCommandSender
  | dropRequestSender => exact ⟨rfl, id⟩
  | stop => exact ⟨rfl, fun _ => rfl⟩

theorem happen_retains (hhappen : l.happen h = some l') : Retains l l' := by
  cases h with
  | step now a =>
      rcases step_cases hhappen with ⟨o, s, _, rfl, -, -, rfl⟩ | ⟨-, hturn⟩ | haround
      · cases o <;> exact ⟨rfl, id⟩
      · exact hturn.retains
      · exact haround.retains
  | takeInbox | dropInbox | stopClient | bring | leave | dropMessageSender | note =>
      cases hhappen
      exact ⟨rfl, id⟩

theorem capacity_run {hs : List Happening} {start : EventLoop} (hrun : start.run hs = some l) :
    l.registry.capacity = start.registry.capacity :=
  Steps.run_induction (P := fun _ l => l.registry.capacity = start.registry.capacity) rfl
    (fun _ _ _ _ _ ih hhappen => (happen_retains hhappen).capacity.trans ih) hrun

end HookRelay.EventLoop
