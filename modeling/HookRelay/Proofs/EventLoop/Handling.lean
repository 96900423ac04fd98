import HookRelay.Proofs.EventLoop.Recipients
import HookRelay.Proofs.Registry.Broadcast

namespace HookRelay

/-- The command of which an entry of the log says that it has been ignored. -/
def LogEntry.command? : LogEntry → Option String
  | .commandIgnored text => some text
  | _ => none

theorem Registry.command?_of_mem_broadcast {r : Registry} {m : Message} {e : LogEntry}
    (he : e ∈ (r.broadcast m).2.2) : e.command? = none := by
  rw [Registry.log_broadcast] at he
  obtain ⟨c, -, rfl⟩ := List.mem_map.mp he
  unfold Client.farewell
  split <;> rfl

namespace EventLoop

/-- The commands that the log speaks of. -/
def reported (l : EventLoop) : List String := l.log.filterMap LogEntry.command?

/-- The commands that the loop itself writes of. -/
def reporting (h : Happening) (l : EventLoop) : List String :=
  match h with
  | .step now a => (l.step now a).elim [] fun l' => l'.reported.drop l.reported.length
  | _ => []

/-- The commands that the loop itself writes of in the course of a run. -/
def reports : List Happening → EventLoop → List String := Steps.seen happen reporting

/-- Whether the loop still polls an intake. It never stops polling the one for messages. -/
def isOpen (s : Source) (l : EventLoop) : Bool :=
  match s with
  | .events => l.eventsOpen
  | .commands => l.commandsOpen
  | .requests => l.requestsOpen
  | .messages => true

/-- The step at which the loop polls an intake. -/
def Source.poll : Source → Action
  | .events => .takeEvent
  | .commands => .takeCommand
  | .requests => .takeRequest
  | .messages => .takeMessage

/-- Whether the loop polls an intake, from this instant on, or gives up a line for which the
chat session takes too long. -/
def isServing (s : Source) (now : Nat) (h : Happening) : Bool :=
  match h with
  | .step t a => decide (now ≤ t) && (a = s.poll || a = .chatEnds .late)
  | _ => false

variable {s : Source} {l l' : EventLoop} {a : Action} {h : Happening} {now : Nat}

section Reports

theorem reported_write (entries : List LogEntry) :
    (l.write entries).reported = l.reported ++ entries.filterMap LogEntry.command? :=
  List.filterMap_append

theorem reported_write_of_none {entries : List LogEntry}
    (hentries : ∀ e ∈ entries, e.command? = none) :
    (l.write entries).reported = l.reported := by
  rw [reported_write, List.filterMap_eq_nil_iff.mpr hentries, List.append_nil]

theorem reported_checkOver : l.checkOver.reported = l.reported := by
  unfold checkOver
  split
  · rfl
  · exact reported_write_of_none (l := l) (by simp [LogEntry.command?])

theorem reported_dispatch (e : Event) : (l.dispatch e).reported = l.reported := by
  refine reported_write_of_none fun entry hentry => ?_
  rcases List.mem_append.mp hentry with hentry | hentry
  · exact Registry.command?_of_mem_broadcast hentry
  · split at hentry
    · cases hentry
    · rw [List.mem_singleton.mp hentry]
      rfl

theorem reported_register (socket : Nat) : (l.register socket).reported = l.reported := by
  unfold register Registry.register
  cases (Mailbox.create l.registry.capacity : Except CapacityError (Mailbox Message)) with
  | error e => exact reported_write_of_none (by simp [LogEntry.command?])
  | ok inbox => exact reported_write_of_none (by simp [LogEntry.command?])

theorem reported_finishChat (st : Stanza) (o : ChatOutcome) :
    (l.finishChat st o).reported = l.reported := by
  cases o <;> exact reported_write_of_none (by simp [chatLog, LogEntry.command?])

theorem Around.log (haround : Around l a l') : l'.log = l.log := by
  cases haround with
  | @bring ticket t ask => cases ask <;> (dsimp only [bringAsk, settleCall]; split <;> rfl)
  | callRefused | call | serveEvent | serveCommand | requestRefused | request | requestLetIn
  | requestDismissed | serveMessage | addEventSender | dropEventSender | dropCommandSender
  | dropRequestSender | stop => rfl

/-- At a step the loop writes of the command that it handles, and of no other. -/
theorem reported_step (hstep : l.step now a = some l') :
    l'.reported = l.reported ++ (l.handling .commands (.step now a)).map (·.text) := by
  rcases step_cases hstep with ⟨o, st, _, rfl, -, -, rfl⟩ | ⟨-, hturn⟩ | haround
  · rw [reported_finishChat]
    exact (List.append_nil _).symm
  · cases hturn with
    | quits =>
        have hexit : l.exit.reported = l.reported :=
          reported_write_of_none (l := l) (by simp [LogEntry.command?])
        rw [hexit]
        exact (List.append_nil _).symm
    | event =>
        rw [reported_dispatch]
        exact (List.append_nil _).symm
    | @command c commands _ htake =>
        have hhandling : l.handling .commands (.step now .takeCommand) = [c] := by
          change l.commands.queue.items.take 1 = [c]
          rw [Intake.items_of_take htake]
          rfl
        rw [hhandling]
        exact reported_write _
    | request =>
        rw [reported_register]
        exact (List.append_nil _).symm
    | message => exact (List.append_nil _).symm
    | noEvent | noRequest =>
        rw [reported_checkOver]
        exact (List.append_nil _).symm
    | noCommand _ htake =>
        have hhandling : l.handling .commands (.step now .takeCommand) = [] :=
          Intake.take_one_of_disconnected htake
        rw [reported_checkOver, hhandling]
        exact (List.append_nil _).symm
  · have hhandling : l.handling .commands (.step now a) = [] := by cases haround <;> rfl
    rw [reported, haround.log, hhandling]
    exact (List.append_nil _).symm

theorem reporting_happen (hhappen : l.happen h = some l') :
    l.reporting h = (l.handling .commands h).map (·.text) := by
  cases h with
  | step now a =>
      have hstep : l.step now a = some l' := hhappen
      rw [reporting, hstep, Option.elim_some, reported_step hstep, List.drop_left]
  | takeInbox | dropInbox | stopClient | bring | leave | dropMessageSender | note => rfl

theorem reports_eq (hs : List Happening) (start : EventLoop) :
    reports hs start = (handled .commands hs start).map (·.text) :=
  Steps.seen_map (fun _ _ _ hhappen => reporting_happen hhappen) hs start

end Reports

section Serving

theorem isOpen_register (socket : Nat) : (l.register socket).isOpen s = l.isOpen s := by
  unfold register
  split <;> cases s <;> rfl

theorem exists_of_isServing (hserving : isServing s now h = true) :
    ∃ t, now ≤ t ∧ (h = .step t s.poll ∨ h = .step t (.chatEnds .late)) := by
  cases h with
  | step t a =>
      rw [isServing, Bool.and_eq_true, decide_eq_true_eq, Bool.or_eq_true, decide_eq_true_eq,
        decide_eq_true_eq] at hserving
      exact ⟨t, hserving.1, hserving.2.imp (congrArg _) (congrArg _)⟩
  | takeInbox | dropInbox | stopClient | bring | leave | dropMessageSender | note => cases hserving

theorem arrivals_of_isServing {more : List Happening} (hmore : more.all (isServing s now) = true)
    (s' : Source) : arrivals s' more l = [] := by
  refine Steps.seen_eq_nil (P := fun _ => True) trivial fun h hh _ _ _ _ => ⟨?_, trivial⟩
  obtain ⟨t, -, rfl | rfl⟩ := exists_of_isServing (List.all_eq_true.mp hmore h hh)
  · cases s <;> cases s' <;> rfl
  · cases s' <;> rfl

theorem serve_one {x : s.Item} {rest : List s.Item} (hready : l.phase = .ready)
    (hopen : l.isOpen s = true) (hqueued : l.queued s = x :: rest) (now : Nat) :
    ∃ more l', more.all (isServing s now) = true ∧ l.run more = some l' ∧
      l'.phase = .ready ∧
      l'.isOpen s = true ∧ l'.queued s = rest ∧ handled s more l = [x] := by
  have hhandling : ∀ {h}, l.handling s h = (l.queued s).take 1 → l.handling s h = [x] := by
    intro h hhandling
    rw [hhandling, hqueued]
    rfl
  have hone : ∀ {a l'}, isServing s now (.step now a) = true →
      l.happen (.step now a) = some l' → l.handling s (.step now a) = (l.queued s).take 1 →
      [Happening.step now a].all (isServing s now) = true ∧ l.run [.step now a] = some l' ∧
        handled s [.step now a] l = [x] := by
    intro a l' hserving hhappen hhead
    refine ⟨by simp [hserving], Steps.run_singleton hhappen, ?_⟩
    rw [handled, Steps.seen_singleton hhappen, hhandling hhead]
  cases s with
  | events =>
      obtain ⟨events, htake, hrest⟩ := Intake.exists_take_of_items hqueued
      have hturn : Turn now l .takeEvent _ := .event hopen htake
      obtain ⟨hserving, hrun, hhandled⟩ :=
        hone (by simp [isServing, Source.poll]) (hturn.step hready) rfl
      exact ⟨_, _, hserving, hrun, hready, hopen, hrest, hhandled⟩
  | commands =>
      obtain ⟨commands, htake, hrest⟩ := Intake.exists_take_of_items hqueued
      have hturn : Turn now l .takeCommand _ := .command hopen htake
      obtain ⟨hserving, hrun, hhandled⟩ :=
        hone (by simp [isServing, Source.poll]) (hturn.step hready) rfl
      exact ⟨_, _, hserving, hrun, hready, hopen, hrest, hhandled⟩
  | requests =>
      obtain ⟨requests, htake, hrest⟩ := Intake.exists_take_of_items hqueued
      have hturn : Turn now l .takeRequest _ := .request hopen htake
      obtain ⟨hserving, hrun, hhandled⟩ :=
        hone (by simp [isServing, Source.poll]) (hturn.step hready) rfl
      refine ⟨_, _, hserving, hrun, phase_register x hready, ?_, ?_, hhandled⟩
      · rw [isOpen_register]
        exact hopen
      · rw [queued_register]
        exact hrest
  | messages =>
      -- Even a chat session that never answers keeps the loop for a limited time only.
      obtain ⟨l', hrun, hready', hrest, -, -⟩ := forward_one hready hqueued now .late
      refine ⟨_, l', ?_, hrun, hready', rfl, hrest, ?_⟩
      · simp [isServing, Source.poll]
      · obtain ⟨l₁, htakes, hends⟩ := Option.bind_eq_some_iff.mp hrun
        obtain ⟨l₂, hends, -⟩ := Option.bind_eq_some_iff.mp hends
        rw [handled, Steps.seen, htakes, Option.elim_some, Steps.seen_singleton hends,
          hhandling rfl]
        rfl

theorem serve_all {xs : List s.Item} (hready : l.phase = .ready) (hopen : l.isOpen s = true)
    (hqueued : l.queued s = xs) (now : Nat) :
    ∃ more l', more.all (isServing s now) = true ∧ l.run more = some l' ∧
      l'.phase = .ready ∧
      l'.queued s = [] ∧ handled s more l = xs := by
  induction xs generalizing l with
  | nil => exact ⟨[], l, rfl, rfl, hready, hqueued, rfl⟩
  | cons x xs ih =>
      obtain ⟨first, l₁, hfirst, hrun₁, hready₁, hopen₁, hqueued₁, hhandled₁⟩ :=
        serve_one hready hopen hqueued now
      obtain ⟨more, l', hmore, hrun, hready', hqueued', hhandled⟩ :=
        ih hready₁ hopen₁ hqueued₁
      refine ⟨first ++ more, l', ?_, (Steps.run_append hrun₁).trans hrun, hready', hqueued',
        ?_⟩
      · rw [List.all_append, hfirst, hmore, Bool.and_self]
      · rw [handled, Steps.seen_append hrun₁, ← handled, hhandled₁, hhandled]
        rfl

/-- A loop that has not ended can handle all that waits in an intake that it polls, from any
instant on. -/
theorem serve_waiting (hgoing : l.phase ≠ .exited) (hopen : l.isOpen s = true) (now : Nat) :
    ∃ more l', more.all (isServing s now) = true ∧ l.run more = some l' ∧
      l'.phase = .ready ∧
      l'.queued s = [] ∧ handled s more l = l.queued s := by
  rcases hcase : l.phase with _ | ⟨st, since⟩ | _
  · exact serve_all hcase hopen rfl now
  · obtain ⟨t, hnow, hlate⟩ : ∃ t, now ≤ t ∧ since + l.chatLimit.nanos ≤ t :=
      ⟨max now (since + l.chatLimit.nanos), Nat.le_max_left _ _, Nat.le_max_right _ _⟩
    have hends : l.happen (.step t (.chatEnds .late)) = some (l.finishChat st .late) :=
      step_chatEnds hcase fun _ => hlate
    have hopen₁ : (l.finishChat st .late).isOpen s = true := by
      cases s <;> exact hopen
    have hqueued₁ : (l.finishChat st .late).queued s = l.queued s := by
      cases s <;> rfl
    obtain ⟨more, l', hmore, hrun, hready', hqueued', hhandled⟩ :=
      serve_all (s := s) rfl hopen₁ hqueued₁ now
    have hrun₁ : l.run [_] = some (l.finishChat st .late) := Steps.run_singleton hends
    refine ⟨_ :: more, l', ?_, (Steps.run_append hrun₁).trans hrun, hready', hqueued', ?_⟩
    · rw [List.all_cons, hmore]
      simp [isServing, hnow]
    · rw [handled, Steps.seen, hends, Option.elim_some, ← handled, hhandled]
      cases s <;> rfl
  · exact absurd hcase hgoing

end Serving

end EventLoop

end HookRelay
