import HookRelay.Proofs.EventLoop.Conservation
/-!
What commands and clients' messages do to the rest of the event loop: nothing. Delete
them from a run, with whatever the chat session did to the loop over them, and the same
events get the same numbers, come to the same queues and cost the same clients their
registration.
-/

namespace HookRelay.EventLoop

/-- Whether something has to do with commands or with clients' messages only. That no
more commands can come is not such a thing. -/
def isSide (h : Happening) (l : EventLoop) : Bool :=
  match h with
  | .step _ (.call _ ask) => !ask.isEvent
  | .step _ (.bring ticket) => (l.calling ticket).any (!·.isEvent)
  | .step _ .takeCommand => !(l.queued .commands).isEmpty
  | .step _ .serveCommand | .step _ .serveMessage | .step _ .takeMessage
  | .step _ (.chatEnds _) => true
  | .bring _ _ | .leave _ | .dropMessageSender => true
  | _ => false

/-- A run without its commands and clients' messages. -/
def undisturbed : List Happening → EventLoop → List Happening :=
  Steps.seen happen fun h l => if l.isSide h then [] else [h]

/-- The ids of the clients that were registered before and are not any more. -/
def dropped (before after : Registry) : List UInt64 :=
  ((before.clients.zip after.clients).filter fun c => c.1.registered && !c.2.registered).map
    (·.1.id)

/-- The message that is offered to the clients, and whom that costs the registration. -/
def offering (h : Happening) (l : EventLoop) : List (Message × List UInt64) :=
  match h, l.happen h with
  | .step _ .takeEvent, some l' =>
    ((l.queued .events).take 1).map fun e =>
      (.ofEvent e l.counter, dropped l.registry l'.registry)
  | _, _ => []

def broadcasts : List Happening → EventLoop → List (Message × List UInt64) :=
  Steps.seen happen offering

/-- The phase of a loop that has never handed a line to the chat session. -/
def settledPhase : LoopPhase → LoopPhase
  | .forwarding _ _ => .ready
  | p => p

/-- The second loop is where the first one would be without commands and clients'
messages. -/
structure Mirrors (l q : EventLoop) : Prop where
  registry : q.registry = l.registry
  counter : q.counter = l.counter
  events : q.events = l.events
  eventsOpen : q.eventsOpen = l.eventsOpen
  commandsOpen : q.commandsOpen = l.commandsOpen
  requests : q.requests = l.requests
  requestsOpen : q.requestsOpen = l.requestsOpen
  replies : q.replies = l.replies
  stopping : q.stopping = l.stopping
  phase : q.phase = settledPhase l.phase
  begun : q.begun = l.begun.filter (·.2.isEvent)
  commands : q.commands.queue.items = [] ∧ q.commands.line = []
  ends : l.commands.SameEnds q.commands

section Lists

variable {α : Type} {p f : α → Bool} {xs : List α} {x : α}

theorem find?_filter_of_find? (h : xs.find? p = some x) (hx : f x = true) :
    (xs.filter f).find? p = some x := by
  induction xs with
  | nil => cases h
  | cons y xs ih =>
      rw [List.find?_cons] at h
      split at h
      · next hy =>
        cases h
        rw [List.filter_cons_of_pos hx, List.find?_cons_of_pos hy]
      · next hy =>
        by_cases hf : f y = true
        · rw [List.filter_cons_of_pos hf, List.find?_cons_of_neg (by simp [hy]), ih h]
        · rw [List.filter_cons_of_neg hf, ih h]

theorem filter_eraseP_of_pos (h : xs.find? p = some x) (hx : f x = true) :
    (xs.eraseP p).filter f = (xs.filter f).eraseP p := by
  induction xs with
  | nil => cases h
  | cons y xs ih =>
      rw [List.find?_cons] at h
      split at h
      · next hy =>
        cases h
        rw [List.filter_cons_of_pos hx, List.eraseP_cons_of_pos hy, List.eraseP_cons_of_pos hy]
      · next hy =>
        have hneg : ¬ p y = true := by simp [hy]
        by_cases hf : f y = true
        · rw [List.filter_cons_of_pos hf, List.eraseP_cons_of_neg hneg,
            List.eraseP_cons_of_neg hneg, List.filter_cons_of_pos hf, ih h]
        · rw [List.filter_cons_of_neg hf, List.eraseP_cons_of_neg hneg,
            List.filter_cons_of_neg hf, ih h]

theorem filter_eraseP_of_neg (h : xs.find? p = some x) (hx : f x = false) :
    (xs.eraseP p).filter f = xs.filter f := by
  induction xs with
  | nil => cases h
  | cons y xs ih =>
      rw [List.find?_cons] at h
      split at h
      · next hy =>
        cases h
        rw [List.eraseP_cons_of_pos hy, List.filter_cons_of_neg (by simp [hx])]
      · next hy =>
        rw [List.eraseP_cons_of_neg (by simp [hy]), List.filter_cons, List.filter_cons, ih h]

end Lists

variable {l l' q q' : EventLoop} {a : Action} {now : Nat} {h : Happening}

theorem sameEnds_serve {α : Type} {i j : Intake α} {ticket : Nat} {e : Option CallError}
    (h : serve i = some (ticket, e, j)) : i.SameEnds j := by
  unfold serve at h
  split at h
  · next hletIn =>
    cases h
    exact Intake.sameEnds_letIn hletIn
  · obtain ⟨⟨t, j⟩, hdismiss, hj⟩ := Option.map_eq_some_iff.mp h
    cases hj
    exact .of_queue_eq (Intake.queue_of_dismiss hdismiss)

namespace Mirrors

theorem of_create {settings : Settings} (hcreate : create settings = .ok l) : Mirrors l l := by
  rw [eq_of_create hcreate]
  exact ⟨rfl, rfl, rfl, rfl, rfl, rfl, rfl, rfl, rfl, rfl, rfl, ⟨rfl, rfl⟩, ⟨rfl, rfl⟩⟩

theorem settleCall (hm : Mirrors l q) (ticket : Nat) (entry : Entry) :
    Mirrors (settleCall ticket entry l) (settleCall ticket entry q) := by
  cases entry <;> exact { hm with }

theorem exit (hm : Mirrors l q) : Mirrors l.exit q.exit where
  registry := congrArg Registry.shutDown hm.registry
  counter := hm.counter
  events := congrArg Intake.dropReceiver hm.events
  eventsOpen := hm.eventsOpen
  commandsOpen := hm.commandsOpen
  requests := congrArg Intake.dropReceiver hm.requests
  requestsOpen := hm.requestsOpen
  replies := by
    change q.replies ++ q.requests.queue.items.map _ = l.replies ++ l.requests.queue.items.map _
    rw [hm.replies, hm.requests]
  stopping := hm.stopping
  phase := rfl
  begun := hm.begun
  commands := ⟨rfl, hm.commands.2⟩
  ends := ⟨hm.ends.senders, rfl⟩

theorem checkOver (hm : Mirrors l q) : Mirrors l.checkOver q.checkOver := by
  unfold EventLoop.checkOver
  rw [hm.eventsOpen, hm.commandsOpen, hm.requestsOpen]
  split
  · exact hm
  · exact hm.exit

theorem dispatch (hm : Mirrors l q) (e : Event) : Mirrors (l.dispatch e) (q.dispatch e) :=
  { hm with
    registry := by
      change (q.registry.broadcast _).2.1 = (l.registry.broadcast _).2.1
      rw [hm.registry, hm.counter]
    counter := congrArg (· + 1) hm.counter }

theorem register (hm : Mirrors l q) (socket : Nat) :
    Mirrors (l.register socket) (q.register socket) := by
  unfold EventLoop.register
  rw [hm.registry]
  split
  · exact { hm with
      registry := rfl
      replies := by
        change q.replies ++ _ = l.replies ++ _
        rw [hm.replies] }
  · exact { hm with
      registry := rfl
      phase := rfl
      replies := by
        change q.replies ++ _ = l.replies ++ _
        rw [hm.replies] }

theorem hasBegun (hm : Mirrors l q) : q.hasBegun Ask.isEvent = l.hasBegun Ask.isEvent := by
  rw [EventLoop.hasBegun, EventLoop.hasBegun, hm.begun, List.any_filter]
  congr 1
  funext c
  exact Bool.and_self _

theorem not_hasBegun (hm : Mirrors l q) : q.hasBegun (!·.isEvent) = false := by
  rw [EventLoop.hasBegun, hm.begun, List.any_filter, List.any_eq_false]
  intro c _
  simp

theorem take_commands (hm : Mirrors l q) {i : Intake Command}
    (htake : l.commands.take = (.disconnected, i)) :
    q.commands.take = (.disconnected, q.commands) := by
  refine Intake.take_of_isOver ?_ hm.commands.1 hm.commands.2
  rw [hm.ends.isOver]
  exact Intake.isOver_of_take htake

theorem hasSender (hm : Mirrors l q) (e : Event) :
    q.hasSender (.event e) = l.hasSender (.event e) := by
  rw [EventLoop.hasSender, EventLoop.hasSender, hm.events]
  rfl

theorem bring (hm : Mirrors l q) {ticket t : Nat} {e : Event}
    (hfind : l.begun.find? (·.1 == ticket) = some (t, .event e)) :
    Mirrors (bringAsk ticket (.event e) { l with begun := l.begun.eraseP (·.1 == ticket) })
      (bringAsk ticket (.event e) { q with begun := q.begun.eraseP (·.1 == ticket) }) := by
  have herased : Mirrors
      { l with events := (l.events.bring ticket e).2, begun := l.begun.eraseP (·.1 == ticket) }
      { q with events := (l.events.bring ticket e).2, begun := q.begun.eraseP (·.1 == ticket) } :=
    { hm with
      events := rfl
      begun := by rw [filter_eraseP_of_pos hfind rfl, hm.begun] }
  dsimp only [bringAsk]
  rw [hm.events]
  exact herased.settleCall ticket _

theorem around (hm : Mirrors l q) (hside : l.isSide (.step now a) = false)
    (haround : Around l a l') : ∃ q', Around q a q' ∧ Mirrors l' q' := by
  cases haround with
  | @callRefused ticket ask hsender hstopping =>
      cases ask with
      | event e =>
          exact ⟨_, .callRefused (hm.hasSender e ▸ hsender) (hm.stopping.trans hstopping),
            { hm with }⟩
      | command c => cases hside
  | @call ticket ask hsender hstopping =>
      cases ask with
      | event e =>
          refine ⟨_, .call (hm.hasSender e ▸ hsender) (hm.stopping.trans hstopping),
            { hm with begun := ?_ }⟩
          rw [List.filter_append, ← hm.begun]
          rfl
      | command c => cases hside
  | @bring ticket t ask hfind =>
      cases ask with
      | event e =>
          have hfind' : q.begun.find? (·.1 == ticket) = some (t, .event e) := by
            rw [hm.begun]
            exact find?_filter_of_find? hfind rfl
          exact ⟨_, .bring hfind', hm.bring hfind⟩
      | command c =>
          rw [isSide, calling, hfind] at hside
          cases hside
  | @serveEvent ticket e events hserve =>
      rw [← hm.events] at hserve
      exact ⟨_, .serveEvent hserve, { hm with events := rfl }⟩
  | requestRefused hsenders hbring =>
      rw [← hm.requests] at hsenders hbring
      exact ⟨_, .requestRefused hsenders hbring,
        { hm with replies := congrArg (· ++ [_]) hm.replies }⟩
  | request hsenders hentry hbring =>
      rw [← hm.requests] at hsenders hbring
      exact ⟨_, .request hsenders hentry hbring, { hm with requests := rfl }⟩
  | requestLetIn hletIn =>
      rw [← hm.requests] at hletIn
      exact ⟨_, .requestLetIn hletIn, { hm with requests := rfl }⟩
  | requestDismissed hletIn hdismiss =>
      rw [← hm.requests] at hletIn hdismiss
      exact ⟨_, .requestDismissed hletIn hdismiss,
        { hm with requests := rfl, replies := congrArg (· ++ [_]) hm.replies }⟩
  | addEventSender hsenders =>
      rw [← hm.events] at hsenders
      exact ⟨_, .addEventSender hsenders,
        { hm with events := congrArg Intake.addSender hm.events }⟩
  | dropEventSender =>
      exact ⟨_, .dropEventSender, { hm with events := congrArg Intake.dropSender hm.events }⟩
  | dropCommandSender =>
      exact ⟨_, .dropCommandSender,
        { hm with ends := ⟨congrArg (· - 1) hm.ends.senders, hm.ends.receiver⟩ }⟩
  | dropRequestSender =>
      exact ⟨_, .dropRequestSender,
        { hm with requests := congrArg Intake.dropSender hm.requests }⟩
  | stop => exact ⟨_, .stop, { hm with stopping := rfl }⟩
  | serveCommand | serveMessage => cases hside

theorem turn (hm : Mirrors l q) (hside : l.isSide (.step now a) = false)
    (hturn : Turn now l a l') : ∃ q', Turn now q a q' ∧ Mirrors l' q' := by
  cases hturn with
  | quits hstopping => exact ⟨_, .quits (hm.stopping.trans hstopping), hm.exit⟩
  | @event e events hopen htake =>
      have htaken : Mirrors { l with events } { q with events } := { hm with events := rfl }
      exact ⟨_, .event (hm.eventsOpen.trans hopen) (hm.events ▸ htake), htaken.dispatch e⟩
  | noEvent hopen htake hbegun =>
      have hclosed : Mirrors { l with eventsOpen := false } { q with eventsOpen := false } :=
        { hm with eventsOpen := rfl }
      exact ⟨_, .noEvent (hm.eventsOpen.trans hopen) (hm.events ▸ htake)
        (hm.hasBegun.trans hbegun), hclosed.checkOver⟩
  | command hopen htake =>
      have hitems := Intake.items_of_take htake
      change (!l.commands.queue.items.isEmpty) = false at hside
      rw [hitems] at hside
      cases hside
  | noCommand hopen htake hbegun =>
      have hclosed : Mirrors { l with commandsOpen := false } { q with commandsOpen := false } :=
        { hm with commandsOpen := rfl }
      exact ⟨_, .noCommand (hm.commandsOpen.trans hopen) (hm.take_commands htake)
        hm.not_hasBegun, hclosed.checkOver⟩
  | @request socket requests hopen htake =>
      have htaken : Mirrors { l with requests } { q with requests } := { hm with requests := rfl }
      exact ⟨_, .request (hm.requestsOpen.trans hopen) (hm.requests ▸ htake),
        htaken.register socket⟩
  | noRequest hopen htake =>
      have hclosed : Mirrors { l with requestsOpen := false } { q with requestsOpen := false } :=
        { hm with requestsOpen := rfl }
      exact ⟨_, .noRequest (hm.requestsOpen.trans hopen) (hm.requests ▸ htake),
        hclosed.checkOver⟩
  | message _ => cases hside

/-- All that happens to the loop, commands and clients' messages apart, can happen to its
mirror. -/
theorem happen (hm : Mirrors l q) (hside : l.isSide h = false) (hhappen : l.happen h = some l') :
    ∃ q', q.happen h = some q' ∧ Mirrors l' q' := by
  cases h with
  | step now a =>
      rcases step_cases hhappen with ⟨o, st, _, rfl, -, -, -⟩ | ⟨hready, hturn⟩ | haround
      · cases hside
      · obtain ⟨q', hturn', hm'⟩ := hm.turn hside hturn
        have hready' : q.phase = .ready := by
          rw [hm.phase, hready]
          rfl
        exact ⟨q', hturn'.step hready', hm'⟩
      · obtain ⟨q', haround', hm'⟩ := hm.around hside haround
        exact ⟨q', haround'.step, hm'⟩
  | takeInbox k | dropInbox k | stopClient k =>
      cases hhappen
      exact ⟨_, rfl, { hm with registry := congrArg (Registry.modify · k _) hm.registry }⟩
  | note entries =>
      cases hhappen
      exact ⟨_, rfl, { hm with }⟩
  | bring | leave | dropMessageSender => cases hside

theorem sideAround (hm : Mirrors l q) (hside : l.isSide (.step now a) = true)
    (haround : Around l a l') : Mirrors l' q := by
  cases haround with
  | @callRefused ticket ask =>
      cases ask with
      | event e => cases hside
      | command c => exact { hm with }
  | @call ticket ask =>
      cases ask with
      | event e => cases hside
      | command c =>
          refine { hm with begun := ?_ }
          rw [List.filter_append, hm.begun]
          exact (List.append_nil _).symm
  | @bring ticket t ask hfind =>
      cases ask with
      | event e =>
          rw [isSide, calling, hfind] at hside
          cases hside
      | command c =>
          have hbrought : Mirrors { l with
              commands := (l.commands.bring ticket c).2
              begun := l.begun.eraseP (·.1 == ticket) } q :=
            { hm with
              begun := by rw [filter_eraseP_of_neg hfind rfl, hm.begun]
              ends := (Intake.sameEnds_bring ticket c).symm.trans hm.ends }
          dsimp only [bringAsk, EventLoop.settleCall]
          split <;> exact { hbrought with }
  | serveCommand hserve =>
      exact { hm with ends := (sameEnds_serve hserve).symm.trans hm.ends }
  | serveMessage => exact { hm with }
  | serveEvent | requestRefused | request | requestLetIn | requestDismissed | addEventSender
  | dropEventSender | dropCommandSender | dropRequestSender | stop => cases hside

/-- What has to do with commands and clients' messages leaves the loop where its mirror
is. -/
theorem side (hm : Mirrors l q) (hside : l.isSide h = true) (hhappen : l.happen h = some l') :
    Mirrors l' q := by
  cases h with
  | step now a =>
      rcases step_cases hhappen with
        ⟨o, st, since, rfl, hphase, -, rfl⟩ | ⟨hready, hturn⟩ | haround
      · have hready : q.phase = .ready := by
          rw [hm.phase, hphase]
          rfl
        cases o <;> exact { hm with phase := hready }
      · cases hturn with
        | command _ htake =>
            exact { hm with ends := (Intake.sameEnds_take htake).symm.trans hm.ends }
        | noCommand _ htake _ =>
            -- That the loop finds no command is none of the things that are left out.
            change (!l.commands.queue.items.isEmpty) = true at hside
            rw [Intake.items_of_take_disconnected htake] at hside
            cases hside
        | message _ =>
            refine { hm with phase := ?_ }
            rw [hm.phase, hready]
            rfl
        | quits | event | noEvent | request | noRequest => cases hside
      · exact hm.sideAround hside haround
  | bring | leave | dropMessageSender =>
      cases hhappen
      exact { hm with }
  | takeInbox | dropInbox | stopClient | note => cases hside

theorem offering (hm : Mirrors l q) (hm' : Mirrors l' q') (hhappen : l.happen h = some l')
    (hhappen' : q.happen h = some q') : q.offering h = l.offering h := by
  unfold EventLoop.offering
  rw [hhappen, hhappen']
  split
  · next heq =>
    cases heq
    rw [queued, queued, intake, intake, hm.events, hm.counter, hm.registry, hm'.registry]
  · next hnot =>
    split
    · exact absurd rfl (hnot _ _ rfl)
    · rfl

theorem arriving_eq_nil (hm : Mirrors l q) (hside : l.isSide h = false) {s : Source}
    (hs : s = .commands ∨ s = .messages) : q.arriving s h = [] := by
  have hcalling : ∀ ticket, (q.calling ticket).elim [] (q.asking .commands ticket) = [] := by
    intro ticket
    rcases hfind : q.begun.find? (·.1 == ticket) with _ | ⟨t, ask⟩
    · rw [calling, hfind]
      rfl
    · have hmem := List.mem_of_find?_eq_some hfind
      rw [hm.begun] at hmem
      have hevent := (List.mem_filter.mp hmem).2
      cases ask with
      | event e =>
          rw [calling, hfind]
          rfl
      | command c => cases hevent
  rcases hs with rfl | rfl
  · cases h with
    | step now a =>
        cases a with
        | bring ticket => exact hcalling ticket
        | serveCommand => cases hside
        | _ => rfl
    | _ => rfl
  · cases h with
    | step now a =>
        cases a with
        | serveMessage => cases hside
        | _ => rfl
    | bring => cases hside
    | _ => rfl

end Mirrors

theorem offering_of_isSide (hside : l.isSide h = true) : l.offering h = [] := by
  unfold offering
  split
  · cases hside
  · rfl

/-- Through the whole run the loop keeps its mirror. -/
theorem mirrors_undisturbed {start : EventLoop} {hs : List Happening} (hstart : Mirrors start start)
    (hrun : start.run hs = some l) :
    ∃ q, start.run (undisturbed hs start) = some q ∧ Mirrors l q ∧
      broadcasts (undisturbed hs start) start = broadcasts hs start ∧
      ∀ s, s = .commands ∨ s = .messages → arrivals s (undisturbed hs start) start = [] := by
  refine Steps.run_induction (P := fun hs l => ∃ q, start.run (undisturbed hs start) = some q ∧
    Mirrors l q ∧ broadcasts (undisturbed hs start) start = broadcasts hs start ∧
    ∀ s, s = .commands ∨ s = .messages →
      arrivals s (undisturbed hs start) start = []) ?_ ?_ hrun
  · exact ⟨start, rfl, hstart, rfl, fun _ _ => rfl⟩
  · rintro hs h l l' hrun ⟨q, hrun', hm, hbroadcasts, harrivals⟩ hhappen
    have hundisturbed : undisturbed (hs ++ [h]) start =
        undisturbed hs start ++ if l.isSide h then [] else [h] :=
      Steps.seen_concat hrun hhappen
    have hmore : broadcasts (hs ++ [h]) start = broadcasts hs start ++ l.offering h :=
      Steps.seen_concat hrun hhappen
    rw [hundisturbed, hmore]
    -- What is left out moves the loop but not its mirror; all else moves both.
    cases hside : l.isSide h with
    | true =>
        rw [if_pos rfl, List.append_nil, offering_of_isSide hside, List.append_nil]
        exact ⟨q, hrun', hm.side hside hhappen, hbroadcasts, harrivals⟩
    | false =>
        obtain ⟨q', hhappen', hm'⟩ := hm.happen hside hhappen
        rw [if_neg Bool.false_ne_true]
        have hmore' : broadcasts (undisturbed hs start ++ [h]) start =
            broadcasts (undisturbed hs start) start ++ q.offering h :=
          Steps.seen_concat hrun' hhappen'
        refine ⟨q', Steps.run_concat hrun' hhappen', hm', ?_, ?_⟩
        · rw [hmore', hbroadcasts, hm.offering hm' hhappen hhappen']
        · intro s hs
          rw [arrivals, Steps.seen_concat hrun' hhappen', hm.arriving_eq_nil hside hs,
            List.append_nil]
          exact harrivals s hs

/-- A run without its commands and clients' messages, breakdowns over them included, is a
run. It numbers the same events, offers them to the same clients, and leaves the same
clients with the same messages in their queues. In the whole run, whatever an intake holds
at some moment is handled later, once and in order, or still waits when the run is over,
unless the loop has ended. -/
theorem side_traffic_transparent {settings : Settings} {start : EventLoop} {hs : List Happening}
    (hcreate : create settings = .ok start) (hrun : start.run hs = some l) :
    (∃ q, start.run (undisturbed hs start) = some q ∧ q.registry = l.registry ∧
      q.counter = l.counter ∧ q.replies = l.replies ∧
      broadcasts (undisturbed hs start) start = broadcasts hs start ∧
      ∀ s, s = .commands ∨ s = .messages → arrivals s (undisturbed hs start) start = []) ∧
    ∀ s before after m, hs = before ++ after → start.run before = some m →
      ∃ rest, m.queued s ++ (arrivals s after m).map (·.2) = handled s after m ++ rest ∧
        (l.phase ≠ .exited → rest = l.queued s) := by
  constructor
  · obtain ⟨q, hrun', hm, hbroadcasts, harrivals⟩ :=
      mirrors_undisturbed (Mirrors.of_create hcreate) hrun
    exact ⟨q, hrun', hm.registry, hm.counter, hm.replies, hbroadcasts, harrivals⟩
  · rintro s before after m rfl hbefore
    have hafter : m.run after = some l := by
      rw [← hrun]
      exact (Steps.run_append hbefore).symm
    exact run_conserves hafter

/-- A breakdown over a client's message, while an event, a command and another message
wait. -/
theorem side_traffic_transparent_over_breakdown :
    let e := Event.ofKind "message"
    let c := Command.mk "status"
    let m : Message := ⟨"message", none, 0⟩
    let before : List Happening := [.step 0 (.request 0), .step 0 .takeRequest, .bring 0 m,
      .step 1 .takeMessage, .step 1 (.call 7 (.event e)), .step 1 (.bring 7),
      .step 2 (.call 8 (.command c)), .step 2 (.bring 8), .bring 0 m]
    let after : List Happening := [.step 3 (.chatEnds (.brokeDown .noReason)), .step 3 .takeEvent,
      .step 3 .takeCommand, .step 3 .takeMessage]
    let kept : List Happening := [.step 0 (.request 0), .step 0 .takeRequest,
      .step 1 (.call 7 (.event e)), .step 1 (.bring 7), .step 3 .takeEvent]
    ∃ start l b, create .default = .ok start ∧ start.run (before ++ after) = some l ∧
      (∃ q, start.run kept = some q ∧ q.registry = l.registry ∧ q.counter = l.counter ∧
        broadcasts kept start = broadcasts (before ++ after) start) ∧
      start.run before = some b ∧
      ∀ s, ∃ rest, b.queued s ++ (arrivals s after b).map (·.2) =
        handled s after b ++ rest := by
  intro e c m before after kept
  obtain ⟨start, hcreate, hkept, hruns, hruns'⟩ : ∃ start, create .default = .ok start ∧
      undisturbed (before ++ after) start = kept ∧ (start.run (before ++ after)).isSome ∧
      (start.run before).isSome :=
    ⟨_, rfl, by decide +kernel, by decide +kernel, by decide +kernel⟩
  obtain ⟨l, hrun⟩ := Option.isSome_iff_exists.mp hruns
  obtain ⟨b, hbefore⟩ := Option.isSome_iff_exists.mp hruns'
  obtain ⟨⟨q, hrun', hregistry, hcounter, -, hbroadcasts, -⟩, hconserved⟩ :=
    side_traffic_transparent hcreate hrun
  rw [hkept] at hrun' hbroadcasts
  refine ⟨start, l, b, hcreate, hrun, ⟨q, hrun', hregistry, hcounter, hbroadcasts⟩, hbefore,
    ?_⟩
  intro s
  obtain ⟨rest, hrest, -⟩ := hconserved s before after b rfl hbefore
  exact ⟨rest, hrest⟩

end HookRelay.EventLoop
