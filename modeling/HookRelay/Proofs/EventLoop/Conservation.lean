import HookRelay.Proofs.EventLoop.Moves
import HookRelay.Proofs.EventLoop.Surroundings
/-!
Nothing that has come into an intake of the event loop is lost or handled twice while
the loop goes on, whatever breaks down in between: what has come in is what has been
handled and what still waits, in this order.
-/

namespace HookRelay.EventLoop

/-- What the loop takes from. -/
inductive Source where
  | events
  | commands
  | requests
  | messages
  deriving DecidableEq

abbrev Source.Item : Source → Type
  | .events => Event
  | .commands => Command
  | .requests => Nat
  | .messages => Message

def intake : (s : Source) → EventLoop → Intake s.Item
  | .events, l => l.events
  | .commands, l => l.commands
  | .requests, l => l.requests
  | .messages, l => l.outbox

/-- What waits in an intake. -/
def queued (s : Source) (l : EventLoop) : List s.Item := (l.intake s).queue.items

/-- The call that comes to its intake with a ticket. -/
def calling (ticket : Nat) (l : EventLoop) : Option Ask :=
  (l.begun.find? (·.1 == ticket)).map (·.2)

/-- What an intake accepts when a call comes to its own one. -/
def asking (s : Source) (ticket : Nat) (l : EventLoop) (ask : Ask) : List (Nat × s.Item) :=
  match s, ask with
  | .events, .event e => l.events.accepting ticket e
  | .commands, .command c => l.commands.accepting ticket c
  | _, _ => []

/-- What an intake accepts, with the tickets of the senders. -/
def arriving (s : Source) (h : Happening) (l : EventLoop) : List (Nat × s.Item) :=
  match s, h with
  | .events, .step _ (.bring ticket) => (l.calling ticket).elim [] (l.asking .events ticket)
  | .commands, .step _ (.bring ticket) => (l.calling ticket).elim [] (l.asking .commands ticket)
  | .requests, .step _ (.request socket) => l.requests.accepting socket socket
  | .messages, .bring ticket m => l.outbox.accepting ticket m
  | .events, .step _ .serveEvent => l.events.admitting
  | .commands, .step _ .serveCommand => l.commands.admitting
  | .requests, .step _ .serveRequest => l.requests.admitting
  | .messages, .step _ .serveMessage => l.outbox.admitting
  | _, _ => []

/-- What the loop takes from an intake and handles. What comes of it is shown in `run_broadcasts`
for events, `reports_eq` for commands, `replies_happen` for requests and `run_forwards` for
messages. -/
def handling (s : Source) (h : Happening) (l : EventLoop) : List s.Item :=
  match s, h with
  | .events, .step _ .takeEvent => (l.queued .events).take 1
  | .commands, .step _ .takeCommand => (l.queued .commands).take 1
  | .requests, .step _ .takeRequest => (l.queued .requests).take 1
  | .messages, .step _ .takeMessage => (l.queued .messages).take 1
  | _, _ => []

def arrivals (s : Source) : List Happening → EventLoop → List (Nat × s.Item) :=
  Steps.seen happen (arriving s)

def handled (s : Source) : List Happening → EventLoop → List s.Item :=
  Steps.seen happen (handling s)

/-- Between these two states what has come into an intake was added at its end, and what
has been handled was taken from its front. -/
def Conserves (s : Source) (h : Happening) (l l' : EventLoop) : Prop :=
  l.queued s ++ (l.arriving s h).map (·.2) = l.handling s h ++ l'.queued s

variable {s : Source} {h : Happening} {l l' : EventLoop} {a : Action} {now : Nat}

theorem intake_answer (ticket : Nat) (e : Option CallError) :
    (l.answer ticket e).intake s = l.intake s := by
  cases s <;> rfl

theorem intake_settleCall (ticket : Nat) (entry : Entry) :
    (settleCall ticket entry l).intake s = l.intake s := by
  cases entry
  · exact intake_answer _ _
  · rfl
  · exact intake_answer _ _

theorem intake_checkOver (hphase : l.checkOver.phase ≠ .exited) : l.checkOver = l := by
  unfold checkOver at hphase ⊢
  split
  · rfl
  · next hover =>
    rw [if_neg hover] at hphase
    exact absurd rfl hphase

theorem Conserves.of_queued_eq (hqueued : l'.queued s = l.queued s)
    (harriving : l.arriving s h = [])
    (hhandling : l.handling s h = []) : Conserves s h l l' := by
  rw [Conserves, harriving, hhandling, hqueued]
  exact List.append_nil _

theorem Conserves.of_arriving (hqueued : l'.queued s = l.queued s ++ (l.arriving s h).map (·.2))
    (hhandling : l.handling s h = []) : Conserves s h l l' := by
  rw [Conserves, hhandling, hqueued]
  rfl

theorem queued_bringAsk (s : Source) (ticket : Nat) (ask : Ask) :
    (bringAsk ticket ask l).queued s = l.queued s ++ (l.asking s ticket ask).map (·.2) := by
  cases ask with
  | event e =>
      dsimp only [bringAsk]
      rw [queued, intake_settleCall]
      cases s with
      | events => exact Intake.items_bring_eq ticket e
      | commands | requests | messages => exact (List.append_nil _).symm
  | command c =>
      dsimp only [bringAsk]
      rw [queued, intake_settleCall]
      cases s with
      | commands => exact Intake.items_bring_eq ticket c
      | events | requests | messages => exact (List.append_nil _).symm

theorem arriving_bring {ticket t : Nat} {ask : Ask}
    (hfind : l.begun.find? (·.1 == ticket) = some (t, ask)) :
    l.arriving s (.step now (.bring ticket)) = l.asking s ticket ask := by
  have hcalling : l.calling ticket = some ask := by
    rw [calling, hfind]
    rfl
  cases s with
  | events =>
      change (l.calling ticket).elim [] (l.asking .events ticket) = _
      rw [hcalling, Option.elim_some]
  | commands =>
      change (l.calling ticket).elim [] (l.asking .commands ticket) = _
      rw [hcalling, Option.elim_some]
  | requests | messages => rfl

theorem items_of_serve_eq {α : Type} {i i' : Intake α} {ticket : Nat} {e : Option CallError}
    (h : serve i = some (ticket, e, i')) :
    i'.queue.items = i.queue.items ++ i.admitting.map (·.2) := by
  rw [items_of_serve h, Intake.admitting]
  split
  · rw [List.map_take]
  · rfl

theorem Around.conserves (h : Around l a l') : Conserves s (.step now a) l l' := by
  cases h with
  | @bring ticket t ask hfind =>
      refine .of_arriving ?_ (by cases s <;> rfl)
      rw [arriving_bring hfind, queued_bringAsk]
      cases s <;> rfl
  | serveEvent hserve =>
      cases s with
      | events => exact .of_arriving (items_of_serve_eq hserve) rfl
      | commands | requests | messages => exact .of_queued_eq rfl rfl rfl
  | serveCommand hserve =>
      cases s with
      | commands => exact .of_arriving (items_of_serve_eq hserve) rfl
      | events | requests | messages => exact .of_queued_eq rfl rfl rfl
  | @requestRefused socket _ _ hbring =>
      cases s with
      | requests =>
          refine .of_queued_eq rfl ?_ rfl
          change Intake.accepting socket socket l.requests = []
          rw [Intake.accepting, hbring]
          rfl
      | events | commands | messages => exact .of_queued_eq rfl rfl rfl
  | @request socket _ requests _ _ hbring =>
      cases s with
      | requests =>
          refine .of_arriving ?_ rfl
          change requests.queue.items = l.requests.queue.items ++
            (Intake.accepting socket socket l.requests).map (·.2)
          rw [← Intake.items_bring_eq, hbring]
      | events | commands | messages => exact .of_queued_eq rfl rfl rfl
  | requestLetIn hletIn =>
      cases s with
      | requests => exact .of_arriving (Intake.items_of_letIn hletIn) rfl
      | events | commands | messages => exact .of_queued_eq rfl rfl rfl
  | requestDismissed hletIn hdismiss =>
      cases s with
      | requests =>
          refine .of_queued_eq ?_ (Intake.admitting_of_letIn_eq_none hletIn) rfl
          exact congrArg Mailbox.items (Intake.queue_of_dismiss hdismiss)
      | events | commands | messages => exact .of_queued_eq rfl rfl rfl
  | serveMessage hletIn =>
      cases s with
      | messages => exact .of_arriving (Intake.items_of_letIn hletIn) rfl
      | events | commands | requests => exact .of_queued_eq rfl rfl rfl
  | callRefused | call | addEventSender | dropEventSender | dropCommandSender | dropRequestSender
  | stop => cases s <;> exact .of_queued_eq rfl rfl rfl

theorem Conserves.of_handling (hqueued : l.queued s = l.handling s h ++ l'.queued s)
    (harriving : l.arriving s h = []) : Conserves s h l l' := by
  rw [Conserves, harriving, ← hqueued]
  exact List.append_nil _

theorem queued_register (socket : Nat) : (l.register socket).queued s = l.queued s := by
  unfold register
  split <;> cases s <;> rfl

theorem Turn.conserves (h : Turn now l a l') (hphase : l'.phase ≠ .exited) :
    Conserves s (.step now a) l l' := by
  cases h with
  | quits _ => exact absurd rfl hphase
  | event _ htake =>
      cases s with
      | events => exact .of_handling (Intake.take_one_items_of_take htake) rfl
      | commands | requests | messages => exact .of_queued_eq rfl rfl rfl
  | noEvent _ htake _ =>
      rw [intake_checkOver hphase]
      cases s with
      | events => exact .of_handling (Intake.take_one_items_of_disconnected htake) rfl
      | commands | requests | messages => exact .of_queued_eq rfl rfl rfl
  | command _ htake =>
      cases s with
      | commands => exact .of_handling (Intake.take_one_items_of_take htake) rfl
      | events | requests | messages => exact .of_queued_eq rfl rfl rfl
  | noCommand _ htake _ =>
      rw [intake_checkOver hphase]
      cases s with
      | commands => exact .of_handling (Intake.take_one_items_of_disconnected htake) rfl
      | events | requests | messages => exact .of_queued_eq rfl rfl rfl
  | request _ htake =>
      cases s with
      | requests =>
          refine .of_handling ?_ rfl
          rw [queued_register]
          exact Intake.take_one_items_of_take htake
      | events | commands | messages =>
          refine .of_queued_eq ?_ rfl rfl
          rw [queued_register]
          rfl
  | noRequest _ htake =>
      rw [intake_checkOver hphase]
      cases s with
      | requests => exact .of_handling (Intake.take_one_items_of_disconnected htake) rfl
      | events | commands | messages => exact .of_queued_eq rfl rfl rfl
  | message htake =>
      cases s with
      | messages => exact .of_handling (Intake.take_one_items_of_take htake) rfl
      | events | commands | requests => exact .of_queued_eq rfl rfl rfl

theorem finishChat_conserves (st : Stanza) (o o' : ChatOutcome) :
    Conserves s (.step now (.chatEnds o)) l (l.finishChat st o') := by
  cases s <;> cases o' <;> exact .of_queued_eq rfl rfl rfl

theorem happen_conserves (hphase : l'.phase ≠ .exited) (hhappen : l.happen h = some l') :
    Conserves s h l l' := by
  cases h with
  | step now a =>
      rcases step_cases hhappen with ⟨o, st, _, rfl, -, -, rfl⟩ | ⟨-, hturn⟩ | haround
      · exact finishChat_conserves st o o
      · exact hturn.conserves hphase
      · exact haround.conserves
  | bring ticket m =>
      cases hhappen
      cases s with
      | messages => exact .of_arriving (Intake.items_bring_eq ticket m) rfl
      | events | commands | requests => exact .of_queued_eq rfl rfl rfl
  | takeInbox | dropInbox | stopClient | leave | dropMessageSender | note =>
      cases hhappen
      cases s <;> exact .of_queued_eq rfl rfl rfl

theorem phase_register (socket : Nat) (hready : l.phase = .ready) :
    (l.register socket).phase = .ready := by
  unfold register
  split
  · exact hready
  · rfl

theorem Turn.handling_of_exited (hready : l.phase = .ready) (h : Turn now l a l')
    (hphase : l'.phase = .exited) : l.handling s (.step now a) = [] := by
  have hnot : l.phase ≠ .exited := by simp [hready]
  cases h with
  | event _ _ | command _ _ => exact absurd hphase hnot
  | @request socket requests _ _ =>
      have hregister : ({ l with requests }.register socket).phase = .ready :=
        phase_register socket hready
      exact absurd hphase (by simp [hregister])
  | message _ => cases hphase
  | quits _ => cases s <;> rfl
  | noEvent _ htake _ =>
      cases s with
      | events => exact Intake.take_one_of_disconnected htake
      | commands | requests | messages => rfl
  | noCommand _ htake _ =>
      cases s with
      | commands => exact Intake.take_one_of_disconnected htake
      | events | requests | messages => rfl
  | noRequest _ htake =>
      cases s with
      | requests => exact Intake.take_one_of_disconnected htake
      | events | commands | messages => rfl

theorem handling_of_exited (hphase : l'.phase = .exited) (hhappen : l.happen h = some l') :
    l.handling s h = [] := by
  cases h with
  | step now a =>
      rcases step_cases hhappen with ⟨o, st, _, rfl, -, -, rfl⟩ | ⟨hready, hturn⟩ | haround
      · cases s <;> rfl
      · exact hturn.handling_of_exited hready hphase
      · cases haround <;> cases s <;> rfl
  | takeInbox | dropInbox | stopClient | bring | leave | dropMessageSender | note =>
      cases s <;> rfl

theorem exited_happen (hphase : l.phase = .exited) (hhappen : l.happen h = some l') :
    l'.phase = .exited := by
  cases h with
  | step now a =>
      rcases step_cases hhappen with ⟨_, _, _, -, hforwarding, -⟩ | ⟨hready, -⟩ | haround
      · simp [hphase] at hforwarding
      · simp [hphase] at hready
      · exact haround.keeps.exited hphase
  | takeInbox | dropInbox | stopClient | bring | leave | dropMessageSender | note =>
      cases hhappen
      exact hphase

theorem eq_of_create {settings : Settings} (hcreate : create settings = .ok l) :
    l = { registry := { capacity := settings.clientQueue }
          events := { queue := { capacity := settings.inboxQueue } }
          commands := { queue := { capacity := settings.controlQueue } }
          requests := { queue := { capacity := settings.registrationQueue } }
          outbox := { queue := { capacity := settings.outboxQueue } }
          room := settings.chatRoom
          chatLimit := settings.chatWriteTimeout } := by
  obtain ⟨events, hevents, hcreate⟩ := exists_of_bind_eq_ok hcreate
  obtain ⟨commands, hcommands, hcreate⟩ := exists_of_bind_eq_ok hcreate
  obtain ⟨requests, hrequests, hcreate⟩ := exists_of_bind_eq_ok hcreate
  obtain ⟨outbox, houtbox, hcreate⟩ := exists_of_bind_eq_ok hcreate
  cases hcreate
  rw [Intake.eq_of_create hevents, Intake.eq_of_create hcommands, Intake.eq_of_create hrequests,
    Intake.eq_of_create houtbox]

theorem queued_of_create {settings : Settings} (hcreate : create settings = .ok l) :
    l.queued s = [] := by
  rw [eq_of_create hcreate]
  cases s <;> rfl

/-- What an intake holds, and what comes into it in the course of a run, is handled, each
once and in this order, or is not handled in this run. Unless the loop ends, the latter is
what the intake holds after the run. -/
theorem run_conserves {start : EventLoop} {hs : List Happening} (hrun : start.run hs = some l) :
    ∃ rest, start.queued s ++ (arrivals s hs start).map (·.2) = handled s hs start ++ rest ∧
      (l.phase ≠ .exited → rest = l.queued s) := by
  refine Steps.run_induction (P := fun hs l => ∃ rest,
    start.queued s ++ (arrivals s hs start).map (·.2) = handled s hs start ++ rest ∧
      (l.phase ≠ .exited → rest = l.queued s)) ?_ ?_ hrun
  · exact ⟨start.queued s, List.append_nil _, fun _ => rfl⟩
  · rintro hs h l l' hrun ⟨rest, harrivals, hrest⟩ hhappen
    have harrivals' : start.queued s ++ (arrivals s (hs ++ [h]) start).map (·.2) =
        handled s hs start ++ (rest ++ (l.arriving s h).map (·.2)) := by
      rw [arrivals, Steps.seen_concat hrun hhappen, List.map_append, ← List.append_assoc,
        ← List.append_assoc, ← harrivals]
      rfl
    have hhandled' : handled s (hs ++ [h]) start = handled s hs start ++ l.handling s h :=
      Steps.seen_concat hrun hhappen
    -- What the loop holds when it ends is among the rest from then on.
    by_cases hphase : l'.phase = .exited
    · refine ⟨rest ++ (l.arriving s h).map (·.2), ?_, fun hnot => absurd hphase hnot⟩
      rw [harrivals', hhandled', handling_of_exited hphase hhappen, List.append_nil]
    · have hconserves := happen_conserves (s := s) hphase hhappen
      refine ⟨l'.queued s, ?_, fun _ => rfl⟩
      rw [harrivals', hhandled', hrest fun hexited => hphase (exited_happen hexited hhappen),
        hconserves, List.append_assoc]

end HookRelay.EventLoop
