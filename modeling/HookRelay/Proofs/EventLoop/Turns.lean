import HookRelay.EventLoop.Step

namespace HookRelay.EventLoop

/-- What a ready loop does: it quits, it takes something and handles it, or it finds that
nothing more can come from one side. -/
inductive Turn (now : Nat) (l : EventLoop) : Action → EventLoop → Prop
  | quits : l.stopping = true → Turn now l .quit l.exit
  | event {e : Event} {events : Intake Event} :
      l.eventsOpen = true → l.events.take = (.item e, events) →
      Turn now l .takeEvent ({ l with events }.dispatch e)
  | noEvent {i : Intake Event} :
      l.eventsOpen = true → l.events.take = (.disconnected, i) →
      l.hasBegun Ask.isEvent = false →
      Turn now l .takeEvent { l with eventsOpen := false }.checkOver
  | command {c : Command} {commands : Intake Command} :
      l.commandsOpen = true → l.commands.take = (.item c, commands) →
      Turn now l .takeCommand ({ l with commands }.write [.commandIgnored c.text])
  | noCommand {i : Intake Command} :
      l.commandsOpen = true → l.commands.take = (.disconnected, i) →
      l.hasBegun (!·.isEvent) = false →
      Turn now l .takeCommand { l with commandsOpen := false }.checkOver
  | request {socket : Nat} {requests : Intake Nat} :
      l.requestsOpen = true → l.requests.take = (.item socket, requests) →
      Turn now l .takeRequest ({ l with requests }.register socket)
  | noRequest {i : Intake Nat} :
      l.requestsOpen = true → l.requests.take = (.disconnected, i) →
      Turn now l .takeRequest { l with requestsOpen := false }.checkOver
  | message {m : Message} {outbox : Intake Message} :
      l.outbox.take = (.item m, outbox) →
      Turn now l .takeMessage { l with outbox, phase := .forwarding (.ofMessage l.room m) now }

/-- What others do around a loop. -/
inductive Around (l : EventLoop) : Action → EventLoop → Prop
  | callRefused {ticket : Nat} {ask : Ask} :
      l.hasSender ask = true → l.stopping = true →
      Around l (.call ticket ask) (l.answer ticket (some .stopped))
  | call {ticket : Nat} {ask : Ask} :
      l.hasSender ask = true → l.stopping = false →
      Around l (.call ticket ask) { l with begun := l.begun ++ [(ticket, ask)] }
  | bring {ticket t : Nat} {ask : Ask} :
      l.begun.find? (·.1 == ticket) = some (t, ask) →
      Around l (.bring ticket)
        (bringAsk ticket ask { l with begun := l.begun.eraseP (·.1 == ticket) })
  | serveEvent {ticket : Nat} {e : Option CallError} {events : Intake Event} :
      serve l.events = some (ticket, e, events) →
      Around l .serveEvent ({ l with events }.answer ticket e)
  | serveCommand {ticket : Nat} {e : Option CallError} {commands : Intake Command} :
      serve l.commands = some (ticket, e, commands) →
      Around l .serveCommand ({ l with commands }.answer ticket e)
  | requestRefused {socket : Nat} {i : Intake Nat} :
      l.requests.queue.senders ≠ 0 → l.requests.bring socket socket = (.refused, i) →
      Around l (.request socket) (l.reply socket none)
  | request {socket : Nat} {entry : Entry} {requests : Intake Nat} :
      l.requests.queue.senders ≠ 0 → entry ≠ .refused →
      l.requests.bring socket socket = (entry, requests) →
      Around l (.request socket) { l with requests }
  | requestLetIn {ticket : Nat} {requests : Intake Nat} :
      l.requests.letIn = some (ticket, requests) → Around l .serveRequest { l with requests }
  | requestDismissed {socket : Nat} {requests : Intake Nat} :
      l.requests.letIn = none → l.requests.dismiss = some (socket, requests) →
      Around l .serveRequest ({ l with requests }.reply socket none)
  | serveMessage {ticket : Nat} {outbox : Intake Message} :
      l.outbox.letIn = some (ticket, outbox) → Around l .serveMessage { l with outbox }
  | addEventSender :
      l.events.queue.senders ≠ 0 →
      Around l .addEventSender { l with events := l.events.addSender }
  | dropEventSender : Around l .dropEventSender { l with events := l.events.dropSender }
  | dropCommandSender : Around l .dropCommandSender { l with commands := l.commands.dropSender }
  | dropRequestSender : Around l .dropRequestSender { l with requests := l.requests.dropSender }
  | stop : Around l .stop { l with stopping := true }

variable {l l' : EventLoop} {a : Action} {now : Nat}

theorem Turn.stepReady (h : Turn now l a l') : l.stepReady now a = some l' := by
  cases h with
  | quits hstopping => rw [EventLoop.stepReady, hstopping, if_pos rfl]
  | event hopen htake => simp only [EventLoop.stepReady, takeEvent, hopen, htake]; rfl
  | noEvent hopen htake hbegun =>
      simp only [EventLoop.stepReady, takeEvent, hopen, htake, hbegun]
      rfl
  | command hopen htake => simp only [EventLoop.stepReady, takeCommand, hopen, htake]; rfl
  | noCommand hopen htake hbegun =>
      simp only [EventLoop.stepReady, takeCommand, hopen, htake, hbegun]; rfl
  | request hopen htake => simp only [EventLoop.stepReady, takeRequest, hopen, htake]; rfl
  | noRequest hopen htake => simp only [EventLoop.stepReady, takeRequest, hopen, htake]; rfl
  | message htake => simp only [EventLoop.stepReady, takeMessage, htake]

theorem turn_of_takeEvent (h : l.takeEvent = some l') : Turn now l .takeEvent l' := by
  unfold takeEvent at h
  split at h
  · cases h
  · next hopen =>
    rw [Bool.not_eq_true, Bool.not_eq_false'] at hopen
    split at h
    · next htake =>
      cases h
      exact .event hopen htake
    · next htake =>
      split at h
      · cases h
      · next hbegun =>
        cases h
        exact .noEvent hopen htake (Bool.eq_false_iff.mpr hbegun)
    · cases h

theorem turn_of_takeCommand (h : l.takeCommand = some l') : Turn now l .takeCommand l' := by
  unfold takeCommand at h
  split at h
  · cases h
  · next hopen =>
    rw [Bool.not_eq_true, Bool.not_eq_false'] at hopen
    split at h
    · next htake =>
      cases h
      exact .command hopen htake
    · next htake =>
      split at h
      · cases h
      · next hbegun =>
        cases h
        exact .noCommand hopen htake (Bool.eq_false_iff.mpr hbegun)
    · cases h

theorem turn_of_takeRequest (h : l.takeRequest = some l') : Turn now l .takeRequest l' := by
  unfold takeRequest at h
  split at h
  · cases h
  · next hopen =>
    rw [Bool.not_eq_true, Bool.not_eq_false'] at hopen
    split at h
    · next htake =>
      cases h
      exact .request hopen htake
    · next htake =>
      cases h
      exact .noRequest hopen htake
    · cases h

theorem turn_of_stepReady (h : l.stepReady now a = some l') : Turn now l a l' := by
  unfold EventLoop.stepReady at h
  split at h
  · split at h
    · next hstopping =>
      cases h
      exact .quits hstopping
    · cases h
  · exact turn_of_takeEvent h
  · exact turn_of_takeCommand h
  · exact turn_of_takeRequest h
  · unfold takeMessage at h
    split at h
    · next htake =>
      cases h
      exact .message htake
    · cases h
  · cases h

theorem Around.stepAround (h : Around l a l') : l.stepAround a = some l' := by
  cases h with
  | callRefused hsender hstopping => simp only [EventLoop.stepAround, hsender, hstopping]; rfl
  | call hsender hstopping => simp only [EventLoop.stepAround, hsender, hstopping]; rfl
  | bring hfind => rw [EventLoop.stepAround, hfind]; rfl
  | serveEvent hserve | serveCommand hserve => rw [EventLoop.stepAround, hserve]; rfl
  | requestRefused hsenders hbring =>
      simp only [EventLoop.stepAround, if_neg hsenders, hbring]
  | request hsenders hentry hbring =>
      simp only [EventLoop.stepAround, if_neg hsenders, hbring]
  | requestLetIn hletIn => simp only [EventLoop.stepAround, hletIn]
  | requestDismissed hletIn hdismiss => simp only [EventLoop.stepAround, hletIn, hdismiss]; rfl
  | serveMessage hletIn => rw [EventLoop.stepAround, hletIn]; rfl
  | addEventSender hsenders => rw [EventLoop.stepAround, if_neg hsenders]
  | dropEventSender | dropCommandSender | dropRequestSender | stop => rfl

theorem around_of_stepAround (h : l.stepAround a = some l') : Around l a l' := by
  cases a with
  | call ticket ask =>
      simp only [stepAround] at h
      split at h
      · cases h
      · next hsender =>
        rw [Bool.not_eq_true, Bool.not_eq_false'] at hsender
        split at h
        · next hstopping =>
          cases h
          exact .callRefused hsender hstopping
        · next hstopping =>
          cases h
          exact .call hsender (Bool.eq_false_iff.mpr hstopping)
  | bring ticket =>
      obtain ⟨⟨t, ask⟩, hfind, rfl⟩ := Option.map_eq_some_iff.mp h
      exact .bring hfind
  | serveEvent =>
      obtain ⟨⟨ticket, e, events⟩, hserve, rfl⟩ := Option.map_eq_some_iff.mp h
      exact .serveEvent hserve
  | serveCommand =>
      obtain ⟨⟨ticket, e, commands⟩, hserve, rfl⟩ := Option.map_eq_some_iff.mp h
      exact .serveCommand hserve
  | request socket =>
      simp only [stepAround] at h
      split at h
      · cases h
      · next hsenders =>
        split at h
        · next hbring =>
          cases h
          exact .requestRefused hsenders hbring
        · next hentry hbring =>
          cases h
          exact .request hsenders hentry hbring
  | serveRequest =>
      simp only [stepAround] at h
      split at h
      · next hletIn =>
        cases h
        exact .requestLetIn hletIn
      · next hletIn =>
        obtain ⟨⟨socket, requests⟩, hdismiss, rfl⟩ := Option.map_eq_some_iff.mp h
        exact .requestDismissed hletIn hdismiss
  | serveMessage =>
      obtain ⟨⟨ticket, outbox⟩, hletIn, rfl⟩ := Option.map_eq_some_iff.mp h
      exact .serveMessage hletIn
  | addEventSender =>
      simp only [stepAround] at h
      split at h
      · cases h
      · next hsenders =>
        cases h
        exact .addEventSender hsenders
  | dropEventSender =>
      cases h
      exact .dropEventSender
  | dropCommandSender =>
      cases h
      exact .dropCommandSender
  | dropRequestSender =>
      cases h
      exact .dropRequestSender
  | stop =>
      cases h
      exact .stop
  | quit | takeEvent | takeCommand | takeRequest | takeMessage | chatEnds => cases h

/-- A step is the end of a line with the chat session, something that a ready loop does,
or something that happens around it. -/
theorem step_cases (h : l.step now a = some l') :
    (∃ o s since, a = .chatEnds o ∧ l.phase = .forwarding s since ∧
      (o = .late → since + l.chatLimit.nanos ≤ now) ∧ l' = l.finishChat s o) ∨
    (l.phase = .ready ∧ Turn now l a l') ∨ Around l a l' := by
  unfold step at h
  split at h
  · next s since hphase =>
    split at h
    · cases h
    · next hlate =>
      cases h
      exact .inl ⟨.late, s, since, rfl, hphase, fun _ => Nat.not_lt.mp hlate, rfl⟩
  · next o s since hnot hphase =>
    cases h
    exact .inl ⟨o, s, since, rfl, hphase, fun ho => absurd ho hnot, rfl⟩
  · next hready =>
    rcases Option.or_eq_some_iff.mp h with h | ⟨-, h⟩
    · exact .inr (.inl ⟨hready, turn_of_stepReady h⟩)
    · exact .inr (.inr (around_of_stepAround h))
  · exact .inr (.inr (around_of_stepAround h))

theorem Turn.step (hready : l.phase = .ready) (h : Turn now l a l') :
    l.step now a = some l' := by
  unfold EventLoop.step
  split
  · next s since hphase => simp [hready] at hphase
  · next o s since _ hphase => simp [hready] at hphase
  · rw [h.stepReady, Option.some_or]
  · next hne _ _ => exact absurd hready hne

theorem Around.step (h : Around l a l') : l.step now a = some l' := by
  have hready : l.stepReady now a = none := by
    rw [Option.eq_none_iff_forall_ne_some]
    intro l₁ hturn
    cases turn_of_stepReady hturn <;> cases h
  unfold EventLoop.step
  split
  · cases h
  · cases h
  · rw [hready, Option.none_or, h.stepAround]
  · exact h.stepAround

theorem step_chatEnds {s : Stanza} {since : Nat} {o : ChatOutcome}
    (hphase : l.phase = .forwarding s since)
    (hlate : o = .late → since + l.chatLimit.nanos ≤ now) :
    l.step now (.chatEnds o) = some (l.finishChat s o) := by
  cases o with
  | late => simp only [step, hphase, Nat.not_lt.mpr (hlate rfl), if_false]
  | sent | failed | brokeDown => simp only [step, hphase]

end HookRelay.EventLoop
