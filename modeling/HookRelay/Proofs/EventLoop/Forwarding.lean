import HookRelay.Proofs.EventLoop.Conservation

namespace HookRelay.EventLoop

/-- The line that the chat session has in hand. -/
def inHand (l : EventLoop) : List Stanza :=
  match l.phase with
  | .forwarding s _ => [s]
  | .ready | .exited => []

/-- All lines that have been handed to the chat session. -/
def handed (l : EventLoop) : List Stanza := l.deliveries.map (·.stanza) ++ l.inHand

/-- The lines that are with the chat session or wait for it. -/
def waitingLines (l : EventLoop) : List Stanza :=
  l.inHand ++ l.outbox.queue.items.map (Stanza.ofMessage l.room)

/-- What comes of a line. -/
def ending (h : Happening) : List ChatOutcome :=
  match h with
  | .step _ (.chatEnds o) => [o]
  | _ => []

/-- What came of the lines in the course of a run. -/
def outcomes : List Happening → EventLoop → List ChatOutcome :=
  Steps.seen happen fun h _ => ending h

/-- The message that the client with a ticket brings. -/
def bringingOf (ticket : Nat) (h : Happening) : List Message :=
  match h with
  | .bring t m => if t = ticket then [m] else []
  | _ => []

/-- The messages that the client with a ticket brings in the course of a run. -/
def brought (ticket : Nat) : List Happening → EventLoop → List Message :=
  Steps.seen happen fun h _ => bringingOf ticket h

/-- Whether the loop does this, from this instant on, with a client's message. -/
def isForwarding (now : Nat) (h : Happening) : Bool :=
  match h with
  | .step t .takeMessage | .step t (.chatEnds _) => now ≤ t
  | _ => false

variable {l l' : EventLoop} {a : Action} {h : Happening} {now : Nat}

/-- The chat side is the same. -/
structure SameChat (l l' : EventLoop) : Prop where
  room : l'.room = l.room
  deliveries : l'.deliveries = l.deliveries
  phase : l'.phase = l.phase
  line : l'.outbox.line = l.outbox.line

theorem SameChat.refl : SameChat l l := ⟨rfl, rfl, rfl, rfl⟩

theorem sameChat_settleCall (ticket : Nat) (entry : Entry) :
    SameChat l (settleCall ticket entry l) := by
  cases entry <;> exact ⟨rfl, rfl, rfl, rfl⟩

theorem sameChat_bringAsk (ticket : Nat) (ask : Ask) : SameChat l (bringAsk ticket ask l) := by
  cases ask with
  | event e =>
      have hsettled := sameChat_settleCall (l := { l with events := (l.events.bring ticket e).2 })
        ticket (l.events.bring ticket e).1
      exact { hsettled with }
  | command c =>
      have hsettled := sameChat_settleCall
        (l := { l with commands := (l.commands.bring ticket c).2 }) ticket
        (l.commands.bring ticket c).1
      exact { hsettled with }

theorem Around.sameChat (hserve : a ≠ .serveMessage) (h : Around l a l') : SameChat l l' := by
  cases h with
  | serveMessage => exact absurd rfl hserve
  | @bring ticket t ask =>
      exact { sameChat_bringAsk (l := { l with begun := l.begun.eraseP (·.1 == ticket) }) ticket
        ask with }
  | callRefused | call | serveEvent | serveCommand | requestRefused | request | requestLetIn
  | requestDismissed | addEventSender | dropEventSender | dropCommandSender | dropRequestSender
  | stop => exact ⟨rfl, rfl, rfl, rfl⟩

/-- What a step does on the chat side: each message that is handled is handed over as a
line, and what comes of a line is on record. -/
structure Forwards (h : Happening) (l l' : EventLoop) : Prop where
  room : l'.room = l.room
  handed : l'.handed = l.handed ++ (l.handling .messages h).map (Stanza.ofMessage l.room)
  outcomes : l'.deliveries.map (·.outcome) = l.deliveries.map (·.outcome) ++ ending h

theorem Forwards.of_eq (hroom : l'.room = l.room) (hdeliveries : l'.deliveries = l.deliveries)
    (hinHand : l'.inHand = l.inHand) (hhandling : l.handling .messages h = [])
    (hending : ending h = []) : Forwards h l l' where
  room := hroom
  handed := by
    rw [EventLoop.handed, EventLoop.handed, hdeliveries, hinHand, hhandling]
    exact (List.append_nil _).symm
  outcomes := by rw [hdeliveries, hending, List.append_nil]

theorem SameChat.forwards (hsame : SameChat l l') (hhandling : l.handling .messages h = [])
    (hending : ending h = []) : Forwards h l l' := by
  refine .of_eq hsame.room hsame.deliveries ?_ hhandling hending
  rw [inHand, inHand, hsame.phase]

theorem inHand_of_ready (hready : l.phase = .ready) : l.inHand = [] := by
  rw [inHand, hready]

theorem exit_forwards (hready : l.phase = .ready) (hhandling : l.handling .messages h = [])
    (hending : ending h = []) : Forwards h l l.exit :=
  .of_eq rfl rfl (inHand_of_ready hready).symm hhandling hending

theorem checkOver_forwards (hready : l.phase = .ready) (hhandling : l.handling .messages h = [])
    (hending : ending h = []) : Forwards h l l.checkOver := by
  unfold checkOver
  split
  · exact SameChat.refl.forwards hhandling hending
  · exact exit_forwards hready hhandling hending

theorem Turn.forwards (hready : l.phase = .ready) (hturn : Turn now l a l') :
    Forwards (.step now a) l l' := by
  cases hturn with
  | quits _ => exact exit_forwards hready rfl rfl
  | event | command => exact SameChat.forwards ⟨rfl, rfl, rfl, rfl⟩ rfl rfl
  | noEvent =>
      exact { checkOver_forwards (l := { l with eventsOpen := false })
        (h := .step now .takeEvent) hready rfl rfl with }
  | noCommand =>
      exact { checkOver_forwards (l := { l with commandsOpen := false })
        (h := .step now .takeCommand) hready rfl rfl with }
  | noRequest =>
      exact { checkOver_forwards (l := { l with requestsOpen := false })
        (h := .step now .takeRequest) hready rfl rfl with }
  | @request socket requests _ _ =>
      have hready' : ({ l with requests }.register socket).phase = .ready :=
        phase_register socket hready
      refine .of_eq ?_ ?_ ?_ rfl rfl
      · unfold register
        split <;> rfl
      · unfold register
        split <;> rfl
      · rw [inHand_of_ready hready, inHand_of_ready hready']
  | @message m outbox htake =>
      refine ⟨rfl, ?_, (List.append_nil _).symm⟩
      have hhandling : l.handling .messages (.step now .takeMessage) = [m] := by
        change l.outbox.queue.items.take 1 = [m]
        rw [Intake.items_of_take htake]
        rfl
      rw [hhandling, handed, handed, inHand_of_ready hready, List.append_nil]
      rfl

theorem finishChat_forwards {s : Stanza} {since : Nat} {o : ChatOutcome}
    (hphase : l.phase = .forwarding s since) :
    Forwards (.step now (.chatEnds o)) l (l.finishChat s o) := by
  have hinHand : l.inHand = [s] := by
    rw [inHand, hphase]
  have hdeliveries : (l.finishChat s o).deliveries = l.deliveries ++ [⟨s, o⟩] := by
    cases o <;> rfl
  have hinHand' : (l.finishChat s o).inHand = [] := by
    cases o <;> rfl
  refine ⟨by cases o <;> rfl, ?_, ?_⟩
  · rw [handed, handed, hinHand, hdeliveries, hinHand', List.map_append, List.append_nil]
    exact (List.append_nil _).symm
  · rw [hdeliveries, List.map_append]
    rfl

theorem happen_forwards (hhappen : l.happen h = some l') : Forwards h l l' := by
  cases h with
  | step now a =>
      rcases step_cases hhappen with
        ⟨o, s, since, rfl, hphase, -, rfl⟩ | ⟨hready, hturn⟩ | haround
      · exact finishChat_forwards hphase
      · exact hturn.forwards hready
      · by_cases hserve : a = .serveMessage
        · subst hserve
          cases haround
          exact .of_eq rfl rfl rfl rfl rfl
        · refine (haround.sameChat hserve).forwards ?_ ?_ <;> cases haround <;> rfl
  | takeInbox | dropInbox | stopClient | bring | leave | dropMessageSender | note =>
      cases hhappen
      exact .of_eq rfl rfl rfl rfl rfl

theorem Turn.line (hturn : Turn now l a l') : l'.outbox.line = l.outbox.line := by
  cases hturn with
  | quits | event | command => rfl
  | noEvent | noCommand | noRequest =>
      unfold checkOver
      split <;> rfl
  | request =>
      unfold register
      split <;> rfl
  | message htake => rw [Intake.line_of_take htake]

/-- Of the messages of one client, those that wait in line and those that it brings come to
the intake or wait in line afterwards, in their order. -/
theorem itemsOf_happen (hhappen : l.happen h = some l') (ticket : Nat) :
    (Intake.itemsOf (α := Message) ticket (l.arriving .messages h) ++
        Intake.itemsOf ticket l'.outbox.line).Sublist
      (Intake.itemsOf ticket l.outbox.line ++ bringingOf ticket h) := by
  have hkept : ∀ {h}, l'.outbox.line = l.outbox.line → l.arriving .messages h = [] →
      (Intake.itemsOf (α := Message) ticket (l.arriving .messages h) ++
        Intake.itemsOf ticket l'.outbox.line).Sublist
        (Intake.itemsOf ticket l.outbox.line ++ bringingOf ticket h) := by
    intro h hline harriving
    rw [hline, harriving]
    exact List.sublist_append_left _ _
  cases h with
  | step now a =>
      rcases step_cases hhappen with ⟨o, s, since, rfl, -, -, rfl⟩ | ⟨-, hturn⟩ | haround
      · exact hkept (by cases o <;> rfl) rfl
      · exact hkept hturn.line (by cases hturn <;> rfl)
      · by_cases hserve : a = .serveMessage
        · subst hserve
          cases haround with
          | @serveMessage t outbox hletIn =>
              obtain ⟨m, hline, hadmitting, -⟩ := Intake.admitting_of_letIn hletIn
              have hitems : Intake.itemsOf ticket l.outbox.line =
                  Intake.itemsOf ticket l.outbox.admitting ++
                    Intake.itemsOf ticket outbox.line := by
                rw [← Intake.itemsOf_append, hadmitting, hline]
                rfl
              rw [hitems]
              exact List.sublist_append_left _ _
        · refine hkept (haround.sameChat hserve).line ?_
          cases haround <;> first | rfl | exact absurd rfl hserve
  | bring t m =>
      cases hhappen
      exact Intake.itemsOf_bring ticket t m
  | leave t =>
      cases hhappen
      have hsublist : (Intake.itemsOf ticket (l.outbox.line.eraseP (·.1 == t))).Sublist
          (Intake.itemsOf ticket l.outbox.line) :=
        ((List.eraseP_sublist (l := l.outbox.line)).filter _).map _
      exact hsublist.trans (List.sublist_append_left _ _)
  | takeInbox | dropInbox | stopClient | dropMessageSender | note =>
      cases hhappen
      exact hkept rfl rfl

theorem forward_one {m : Message} {rest : List Message} (hready : l.phase = .ready)
    (hitems : l.outbox.queue.items = m :: rest) (now : Nat) (o : ChatOutcome) :
    ∃ l',
      l.run [.step now .takeMessage, .step (now + l.chatLimit.nanos) (.chatEnds o)] = some l' ∧
      l'.phase = .ready ∧ l'.outbox.queue.items = rest ∧ l'.room = l.room ∧
      l'.deliveries = l.deliveries ++ [⟨.ofMessage l.room m, o⟩] := by
  obtain ⟨outbox, htake, hrest⟩ := Intake.exists_take_of_items hitems
  let taken : EventLoop := { l with outbox, phase := .forwarding (.ofMessage l.room m) now }
  have hstep : l.happen (.step now .takeMessage) = some taken :=
    (Turn.message htake).step hready
  have hends : taken.happen (.step (now + l.chatLimit.nanos) (.chatEnds o)) =
      some (taken.finishChat (.ofMessage l.room m) o) :=
    step_chatEnds rfl fun _ => Nat.le_refl _
  refine ⟨_, Steps.run_concat (Steps.run_singleton hstep) hends, ?_⟩
  cases o <;> exact ⟨rfl, hrest, rfl, rfl⟩

theorem forward_all (hready : l.phase = .ready) (now : Nat) {os : List ChatOutcome}
    (hlength : os.length = l.outbox.queue.items.length) :
    ∃ more l', more.all (isForwarding now) = true ∧ l.run more = some l' ∧
      l'.phase = .ready ∧
      l'.outbox.queue.items = [] ∧
      l'.deliveries = l.deliveries ++ List.zipWith Delivery.mk
        (l.outbox.queue.items.map (Stanza.ofMessage l.room)) os := by
  induction os generalizing l with
  | nil =>
      have hempty := List.eq_nil_of_length_eq_zero hlength.symm
      refine ⟨[], l, rfl, rfl, hready, hempty, ?_⟩
      rw [List.zipWith_nil_right, List.append_nil]
  | cons o os ih =>
      obtain ⟨m, rest, hitems⟩ := List.exists_cons_of_length_eq_add_one hlength.symm
      obtain ⟨l₁, hrun₁, hready₁, hitems₁, hroom, hdeliveries₁⟩ :=
        forward_one hready hitems now o
      have hlength₁ : os.length = l₁.outbox.queue.items.length := by
        rw [hitems, List.length_cons, List.length_cons] at hlength
        rw [hitems₁]
        exact Nat.succ.inj hlength
      obtain ⟨more, l', hmore, hrun, hready', hitems', hdeliveries⟩ := ih hready₁ hlength₁
      refine ⟨_ ++ more, l', ?_, (Steps.run_append hrun₁).trans hrun, hready', hitems', ?_⟩
      · rw [List.all_append, hmore]
        simp [isForwarding]
      · rw [hdeliveries, hdeliveries₁, hitems, hitems₁, hroom, List.append_assoc]
        rfl

/-- The line in hand and all messages in the intake can be brought to their end, whatever
comes of them. -/
theorem forward_waiting (hphase : l.phase ≠ .exited) (now : Nat) {os : List ChatOutcome}
    (hlength : os.length = l.waitingLines.length) :
    ∃ more l', more.all (isForwarding now) = true ∧ l.run more = some l' ∧
      l'.phase = .ready ∧
      l'.outbox.queue.items = [] ∧
      l'.deliveries = l.deliveries ++ List.zipWith Delivery.mk l.waitingLines os := by
  rcases hcase : l.phase with _ | ⟨s, since⟩ | _
  · have hwaiting : l.waitingLines = l.outbox.queue.items.map (Stanza.ofMessage l.room) := by
      rw [waitingLines, inHand_of_ready hcase, List.nil_append]
    rw [hwaiting] at hlength ⊢
    rw [List.length_map] at hlength
    exact forward_all hcase now hlength
  · have hwaiting : l.waitingLines =
        s :: l.outbox.queue.items.map (Stanza.ofMessage l.room) := by
      rw [waitingLines, inHand, hcase]
      rfl
    rw [hwaiting, List.length_cons, List.length_map] at hlength
    rw [hwaiting]
    obtain ⟨o, os, rfl⟩ := List.exists_cons_of_length_eq_add_one hlength
    -- The line in hand cannot be late before its limit, so its end waits that long.
    have hends : l.happen (.step (max now (since + l.chatLimit.nanos)) (.chatEnds o)) =
        some (l.finishChat s o) :=
      step_chatEnds hcase fun _ => Nat.le_max_right _ _
    have hready₁ : (l.finishChat s o).phase = .ready := by cases o <;> rfl
    have hitems₁ : (l.finishChat s o).outbox = l.outbox := by cases o <;> rfl
    have hroom₁ : (l.finishChat s o).room = l.room := by cases o <;> rfl
    have hdeliveries₁ : (l.finishChat s o).deliveries = l.deliveries ++ [⟨s, o⟩] := by
      cases o <;> rfl
    have hlength₁ : os.length = (l.finishChat s o).outbox.queue.items.length := by
      rw [hitems₁]
      exact Nat.succ.inj hlength
    obtain ⟨more, l', hmore, hrun, hready', hitems', hdeliveries⟩ :=
      forward_all hready₁ now hlength₁
    refine ⟨.step (max now (since + l.chatLimit.nanos)) (.chatEnds o) :: more, l', ?_, ?_,
      hready', hitems', ?_⟩
    · rw [List.all_cons, hmore, Bool.and_true]
      exact decide_eq_true (Nat.le_max_left _ _)
    · exact (Steps.run_append (Steps.run_singleton hends)).trans hrun
    · rw [hdeliveries, hdeliveries₁, hitems₁, hroom₁, List.append_assoc]
      rfl
  · exact absurd hcase hphase

/-- Through a whole run, each message that the loop takes is handed over as a line. -/
theorem run_forwards {start : EventLoop} {hs : List Happening} (hrun : start.run hs = some l) :
    l.room = start.room ∧
      l.handed = start.handed ++ (handled .messages hs start).map (Stanza.ofMessage start.room) ∧
      l.deliveries.map (·.outcome) = start.deliveries.map (·.outcome) ++ outcomes hs start := by
  refine Steps.run_induction (P := fun hs l => l.room = start.room ∧
    l.handed = start.handed ++ (handled .messages hs start).map (Stanza.ofMessage start.room) ∧
    l.deliveries.map (·.outcome) =
      start.deliveries.map (·.outcome) ++ outcomes hs start) ?_ ?_ hrun
  · exact ⟨rfl, (List.append_nil _).symm, (List.append_nil _).symm⟩
  · rintro hs h l l' hrun ⟨hroom, hhanded, houtcomes⟩ hhappen
    have hforwards := happen_forwards hhappen
    have hhandled : handled .messages (hs ++ [h]) start =
        handled .messages hs start ++ l.handling .messages h := Steps.seen_concat hrun hhappen
    have hended : outcomes (hs ++ [h]) start = outcomes hs start ++ ending h :=
      Steps.seen_concat hrun hhappen
    refine ⟨hforwards.room.trans hroom, ?_, ?_⟩
    · rw [hforwards.handed, hhanded, hroom, hhandled, List.map_append, List.append_assoc]
    · rw [hforwards.outcomes, houtcomes, hended, List.append_assoc]

/-- Through a whole run, the messages of each client come to the intake in the order in
which the client brings them. -/
theorem run_itemsOf {start : EventLoop} {hs : List Happening} (hline : start.outbox.line = [])
    (hrun : start.run hs = some l) (ticket : Nat) :
    (Intake.itemsOf (α := Message) ticket (arrivals .messages hs start) ++
      Intake.itemsOf ticket l.outbox.line).Sublist (brought ticket hs start) := by
  refine Steps.run_induction (P := fun hs l =>
    (Intake.itemsOf (α := Message) ticket (arrivals .messages hs start) ++
      Intake.itemsOf ticket l.outbox.line).Sublist (brought ticket hs start)) ?_ ?_ hrun
  · rw [hline]
    exact List.Sublist.refl _
  · intro hs h l l' hrun ih hhappen
    have harrivals : arrivals .messages (hs ++ [h]) start =
        arrivals .messages hs start ++ l.arriving .messages h := Steps.seen_concat hrun hhappen
    have hbrought : brought ticket (hs ++ [h]) start =
        brought ticket hs start ++ bringingOf ticket h := Steps.seen_concat hrun hhappen
    rw [harrivals, hbrought, Intake.itemsOf_append, List.append_assoc]
    refine (List.Sublist.append_left (itemsOf_happen hhappen ticket) _).trans ?_
    rw [← List.append_assoc]
    exact ih.append_right _

/-- The chat session is handed one line for each message that the loop takes from its
intake, in this order, whatever comes of the lines, and every line has at most one outcome.
The messages of each client keep their order. Until the loop ends, all lines that wait can
be brought to their end from any instant on, whatever comes of them. -/
theorem messages_forwarded {settings : Settings} {start : EventLoop} {hs : List Happening}
    (hcreate : create settings = .ok start) (hrun : start.run hs = some l) :
    l.handed = (handled .messages hs start).map
        (fun m : Message => (⟨settings.chatRoom, (m.get? "body").getD ""⟩ : Stanza)) ∧
      l.deliveries.map (·.outcome) = outcomes hs start ∧
      (∃ rest, (arrivals .messages hs start).map (·.2) = handled .messages hs start ++ rest ∧
        (l.phase ≠ .exited → rest = l.outbox.queue.items)) ∧
      (∀ ticket, (Intake.itemsOf ticket (arrivals .messages hs start)).Sublist
        (brought ticket hs start)) ∧
      (l.phase ≠ .exited → ∀ now os, os.length = l.waitingLines.length →
        ∃ more l', more.all (isForwarding now) = true ∧ l.run more = some l' ∧
          l'.phase = .ready ∧ l'.outbox.queue.items = [] ∧
          l'.deliveries = l.deliveries ++ List.zipWith Delivery.mk l.waitingLines os) := by
  have hstart := eq_of_create hcreate
  obtain ⟨-, hforwarded, hended⟩ := run_forwards hrun
  obtain ⟨rest, hconserved, hrest⟩ := run_conserves (s := .messages) hrun
  rw [queued_of_create hcreate, List.nil_append] at hconserved
  refine ⟨?_, ?_, ⟨rest, hconserved, hrest⟩, ?_, ?_⟩
  · rw [hforwarded, hstart]
    rfl
  · rw [hended, hstart]
    rfl
  · intro ticket
    exact (List.sublist_append_left _ _).trans
      (run_itemsOf (by rw [hstart]) hrun ticket)
  · intro hphase now os hlength
    exact forward_waiting hphase now hlength

/-- Three messages of two clients. The loop breaks down over the first line, the second one
fails, and the chat session never ends with the third one. -/
theorem messages_forwarded_over_breakdown :
    let m (body : String) : Message := ⟨"message", some (Payload.empty.insert "body" body), 0⟩
    let line (body : String) : Stanza := ⟨Settings.default.chatRoom, body⟩
    let hs : List Happening := [.bring 0 (m "a"), .step 0 .takeMessage, .bring 1 (m "b"),
      .bring 0 (m "c"), .step 1 (.chatEnds (.brokeDown .noReason)), .step 1 .takeMessage,
      .step 2 (.chatEnds (.failed "gone")), .step 2 .takeMessage]
    ∃ start l, create .default = .ok start ∧ start.run hs = some l ∧
      l.handed = [line "a", line "b", line "c"] ∧
      l.deliveries.map (·.outcome) = [.brokeDown .noReason, .failed "gone"] ∧
      (Intake.itemsOf 0 (arrivals .messages hs start)).Sublist (brought 0 hs start) ∧
      ∃ more l', l.run more = some l' ∧ l'.phase = .ready ∧
        l'.deliveries = l.deliveries ++ [⟨line "c", .late⟩] := by
  intro m line hs
  obtain ⟨start, hcreate, hhandled, houtcomes, hruns⟩ :
      ∃ start, create .default = .ok start ∧
      handled .messages hs start = [m "a", m "b", m "c"] ∧
      outcomes hs start = [.brokeDown .noReason, .failed "gone"] ∧
      (start.run hs).any (fun l => l.phase ≠ .exited ∧ l.waitingLines = [line "c"]) :=
    ⟨_, rfl, by decide +kernel, by decide +kernel, by decide +kernel⟩
  obtain ⟨l, hrun, hl⟩ := (Option.any_eq_true _ _).mp hruns
  obtain ⟨hphase, hwaiting⟩ := of_decide_eq_true hl
  obtain ⟨hhanded, hended, -, hclients, hprogress⟩ := messages_forwarded hcreate hrun
  rw [hhandled] at hhanded
  rw [houtcomes] at hended
  have hlength : [ChatOutcome.late].length = l.waitingLines.length := by
    rw [hwaiting]
    rfl
  obtain ⟨more, l', -, hmore, hready, -, hdeliveries⟩ := hprogress hphase 2 [.late] hlength
  rw [hwaiting] at hdeliveries
  exact ⟨start, l, hcreate, hrun, hhanded, hended, hclients 0, more, l', hmore, hready,
    hdeliveries⟩

end HookRelay.EventLoop
