import HookRelay.Proofs.EventLoop.Turns
import HookRelay.Proofs.Intake

namespace HookRelay.EventLoop

/-- The event that an intake accepts when a call with this ticket comes to it. -/
def bringing (i : Intake Event) (ticket : Nat) : Ask → List Event
  | .event e => if (i.bring ticket e).1 = .accepted then [e] else []
  | .command _ => []

/-- The event that the intake accepts at a step. -/
def entering (a : Action) (l : EventLoop) : List Event :=
  match a with
  | .bring ticket =>
    (l.begun.find? (·.1 == ticket)).elim [] fun (_, ask) => bringing l.events ticket ask
  | .serveEvent => if l.events.letIn.isSome then (l.events.line.map (·.2)).take 1 else []
  | _ => []

/-- The loop has done nothing but let `entered` into the intake for events and turn
requests down. -/
structure Keeps (l : EventLoop) (entered : List Event) (l' : EventLoop) : Prop where
  counter : l'.counter = l.counter
  clients : l'.registry.clients = l.registry.clients
  items : l'.events.queue.items = l.events.queue.items ++ entered
  exited : l.phase = .exited → l'.phase = .exited
  replies : ∃ refused : List Nat, l'.replies = l.replies ++ refused.map (·, none)

/-- All that a step at which the intake accepts `entered` can do. -/
inductive Moves (l : EventLoop) : List Event → EventLoop → Prop
  | keeps {entered : List Event} {l' : EventLoop} : Keeps l entered l' → Moves l entered l'
  | numbers {e : Event} {l' : EventLoop} :
      l.phase ≠ .exited → l.events.queue.items = e :: l'.events.queue.items →
      l'.counter = l.counter + 1 →
      l'.registry.clients = l.registry.clients.map (fun c => (c.offer (.ofEvent e l.counter)).1) →
      l'.replies = l.replies → Moves l [] l'
  | registers (socket : Nat) (c : Client) {l' : EventLoop} :
      l.phase ≠ .exited → l'.events.queue.items = l.events.queue.items →
      l'.counter = l.counter → l'.registry.clients = l.registry.clients ++ [c] →
      c.registered = true → c.inbox.items = [] →
      l'.replies = l.replies ++ [(socket, some l.registry.clients.length)] → Moves l [] l'
  | ends (refused : List Nat) {l' : EventLoop} :
      l'.phase = .exited → l'.counter = l.counter →
      l'.registry.clients = l.registry.clients.map Client.shutDown →
      l'.replies = l.replies ++ refused.map (·, none) → Moves l [] l'

variable {l l' : EventLoop} {a : Action} {now : Nat}

namespace Keeps

theorem of_eq {entered : List Event} (hcounter : l'.counter = l.counter)
    (hclients : l'.registry.clients = l.registry.clients)
    (hitems : l'.events.queue.items = l.events.queue.items ++ entered)
    (hexited : l.phase = .exited → l'.phase = .exited) (hreplies : l'.replies = l.replies) :
    Keeps l entered l' :=
  ⟨hcounter, hclients, hitems, hexited, [], by rw [hreplies, List.map_nil, List.append_nil]⟩

theorem refl : Keeps l [] l :=
  .of_eq rfl rfl (List.append_nil _).symm id rfl

theorem reply {entered : List Event} (h : Keeps l entered l') (socket : Nat) :
    Keeps l entered (l'.reply socket none) := by
  obtain ⟨refused, hreplies⟩ := h.replies
  refine ⟨h.counter, h.clients, h.items, h.exited, refused ++ [socket], ?_⟩
  rw [EventLoop.reply, hreplies, List.map_append, List.append_assoc]
  rfl

end Keeps

theorem items_of_serve {α : Type} {i i' : Intake α} {ticket : Nat} {e : Option CallError}
    (h : serve i = some (ticket, e, i')) :
    i'.queue.items =
      i.queue.items ++ if i.letIn.isSome then (i.line.map (·.2)).take 1 else [] := by
  unfold serve at h
  split at h
  · next t j hletIn =>
    obtain ⟨b, hline, hitems⟩ := Intake.exists_of_letIn hletIn
    cases h
    rw [hletIn, hline, hitems]
    simp
  · next hletIn =>
    obtain ⟨⟨t, j⟩, hdismiss, hj⟩ := Option.map_eq_some_iff.mp h
    cases hj
    rw [Intake.queue_of_dismiss hdismiss, hletIn]
    simp

theorem Keeps.settleCall {entered : List Event} (h : Keeps l entered l') (ticket : Nat)
    (entry : Entry) : Keeps l entered (settleCall ticket entry l') := by
  rcases entry with _ | _ | _ <;> exact ⟨h.counter, h.clients, h.items, h.exited, h.replies⟩

theorem bringAsk_keeps (ticket : Nat) (ask : Ask) :
    Keeps l (bringing l.events ticket ask) (bringAsk ticket ask l) := by
  rcases ask with e | c
  · refine Keeps.settleCall ?_ ticket (l.events.bring ticket e).1
    exact .of_eq rfl rfl (Intake.items_bring l.events ticket e) id rfl
  · refine Keeps.settleCall ?_ ticket (l.commands.bring ticket c).1
    exact .of_eq rfl rfl (List.append_nil _).symm id rfl

theorem Around.keeps (h : Around l a l') : Keeps l (l.entering a) l' := by
  have hitems : l.events.queue.items = l.events.queue.items ++ [] := (List.append_nil _).symm
  cases h with
  | @bring ticket t ask hfind =>
      rw [entering, hfind]
      have hbring := bringAsk_keeps (l := { l with begun := l.begun.eraseP (·.1 == ticket) })
        ticket ask
      exact ⟨hbring.counter, hbring.clients, hbring.items, hbring.exited, hbring.replies⟩
  | serveEvent hserve => exact .of_eq rfl rfl (items_of_serve hserve) id rfl
  | @requestRefused socket => exact Keeps.refl.reply socket
  | @requestDismissed socket =>
      refine Keeps.reply ?_ socket
      exact .of_eq rfl rfl hitems id rfl
  | callRefused | call | serveCommand | request | requestLetIn | serveMessage | addEventSender
  | dropEventSender | dropCommandSender | dropRequestSender | stop =>
      exact .of_eq rfl rfl hitems id rfl

theorem exit_moves (h : Keeps l [] l') : Moves l [] l'.exit := by
  obtain ⟨refused, hreplies⟩ := h.replies
  refine .ends (refused ++ l'.requests.queue.items) rfl h.counter ?_ ?_
  · rw [← h.clients]
    rfl
  · rw [List.map_append, ← List.append_assoc, ← hreplies]
    rfl

theorem checkOver_moves (h : Keeps l [] l') : Moves l [] l'.checkOver := by
  rw [checkOver]
  split
  · exact .keeps h
  · exact exit_moves h

theorem register_moves (hready : l.phase = .ready) (requests : Intake Nat) (socket : Nat) :
    Moves l [] ({ l with requests }.register socket) := by
  have hphase : l.phase ≠ .exited := by simp [hready]
  rw [register, Registry.register]
  rcases hcreate : (Mailbox.create l.registry.capacity : Except CapacityError (Mailbox Message))
    with e | inbox
  · exact .keeps ⟨rfl, rfl, (List.append_nil _).symm, fun h => absurd h hphase, [socket], rfl⟩
  · have hinbox : inbox.items = [] := by rw [Mailbox.eq_of_create hcreate]
    exact .registers socket { id := l.registry.nextId, inbox } hphase rfl rfl rfl rfl hinbox rfl

theorem Turn.moves (hready : l.phase = .ready) (h : Turn now l a l') :
    Moves l (l.entering a) l' := by
  have hphase : l.phase ≠ .exited := by simp [hready]
  have hitems : l.events.queue.items = l.events.queue.items ++ [] := (List.append_nil _).symm
  cases h with
  | quits => exact exit_moves .refl
  | event _ htake =>
      refine .numbers hphase (Intake.items_of_take htake) rfl ?_ rfl
      simp [dispatch, write, Registry.broadcast]
  | command => exact .keeps (.of_eq rfl rfl hitems id rfl)
  | @request socket requests => exact register_moves hready requests socket
  | message => exact .keeps (.of_eq rfl rfl hitems (fun h => absurd h hphase) rfl)
  | noEvent | noCommand | noRequest => exact checkOver_moves (.of_eq rfl rfl hitems id rfl)

theorem finishChat_moves {s : Stanza} {since : Nat} (hphase : l.phase = .forwarding s since)
    (o : ChatOutcome) : Moves l [] (l.finishChat s o) := by
  have hexited : l.phase ≠ .exited := by simp [hphase]
  refine .keeps ?_
  rcases o with _ | _ | _ | f <;>
    exact .of_eq rfl rfl (List.append_nil _).symm (fun h => absurd h hexited) rfl

/-- Whatever happens to the loop is one of these. -/
theorem step_moves (h : l.step now a = some l') : Moves l (l.entering a) l' := by
  rcases step_cases h with ⟨o, s, since, rfl, hphase, -, rfl⟩ | ⟨hready, hturn⟩ | haround
  · exact finishChat_moves hphase o
  · exact hturn.moves hready
  · exact .keeps haround.keeps

theorem Moves.replies_prefix {entered : List Event} (h : Moves l entered l') :
    l.replies <+: l'.replies := by
  rcases h with hkeeps | ⟨-, -, -, -, hreplies⟩ | ⟨_, _, -, -, -, -, -, -, hreplies⟩ |
    ⟨_, -, -, -, hreplies⟩
  · obtain ⟨refused, hreplies⟩ := hkeeps.replies
    exact ⟨_, hreplies.symm⟩
  · exact ⟨[], by rw [hreplies, List.append_nil]⟩
  · exact ⟨_, hreplies.symm⟩
  · exact ⟨_, hreplies.symm⟩

end HookRelay.EventLoop
