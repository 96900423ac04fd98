import HookRelay.Proofs.EventLoop.Issuing

namespace HookRelay

theorem Mailbox.capacity_offer {α : Type} (m : Mailbox α) (a : α) :
    (m.offer a).2.capacity = m.capacity := by
  unfold offer
  split
  · rfl
  · split <;> rfl

namespace Intake

variable {α : Type} {i i' : Intake α} {ticket : Nat}

theorem capacity_bring (ticket : Nat) (a : α) :
    (i.bring ticket a).2.queue.capacity = i.queue.capacity := by
  unfold bring
  split
  · rfl
  · split
    · exact Mailbox.capacity_offer _ _
    · rfl

theorem capacity_letIn (h : i.letIn = some (ticket, i')) :
    i'.queue.capacity = i.queue.capacity := by
  unfold letIn at h
  split at h
  · cases h
  · split at h
    · cases h
      exact Mailbox.capacity_offer _ _
    · cases h

theorem capacity_take {t : Taken α} (h : i.take = (t, i')) :
    i'.queue.capacity = i.queue.capacity := by
  unfold take at h
  split at h
  · next queue hqueue =>
    cases h
    rw [(Mailbox.take_eq_item_iff.mp hqueue).2]
  · cases h
    rfl
  · cases h
    rfl

theorem exists_letIn {a : α} {line : List (Nat × α)} (hline : i.line = (ticket, a) :: line)
    (hlistening : i.queue.isListening = true) (hcapacity : 0 < i.queue.capacity)
    (hitems : i.queue.items = []) :
    ∃ i', i.letIn = some (ticket, i') ∧ i'.line = line := by
  have hroom : i.queue.hasRoom = true := by
    rw [Mailbox.hasRoom, hitems]
    exact decide_eq_true hcapacity
  unfold letIn
  rw [hline, hlistening, hroom]
  exact ⟨_, rfl, rfl⟩

end Intake

namespace EventLoop

variable {l l' : EventLoop} {a : Action} {h : Happening} {now : Nat}

section Capacity

theorem capacity_of_serve {α : Type} {i i' : Intake α} {ticket : Nat} {e : Option CallError}
    (hserve : serve i = some (ticket, e, i')) : i'.queue.capacity = i.queue.capacity := by
  unfold serve at hserve
  split at hserve
  · next hletIn =>
    cases hserve
    exact Intake.capacity_letIn hletIn
  · obtain ⟨⟨t, j⟩, hdismiss, hj⟩ := Option.map_eq_some_iff.mp hserve
    cases hj
    rw [Intake.queue_of_dismiss hdismiss]

theorem Turn.capacity_events (hturn : Turn now l a l') :
    l'.events.queue.capacity = l.events.queue.capacity := by
  cases hturn with
  | quits | command | message => rfl
  | event _ htake => exact Intake.capacity_take htake
  | noEvent | noCommand | noRequest =>
      unfold checkOver
      split <;> rfl
  | request =>
      unfold register
      split <;> rfl

theorem capacity_settleCall (ticket : Nat) (entry : Entry) :
    (settleCall ticket entry l).events.queue.capacity = l.events.queue.capacity := by
  cases entry <;> rfl

theorem Around.capacity_events (haround : Around l a l') :
    l'.events.queue.capacity = l.events.queue.capacity := by
  cases haround with
  | serveEvent hserve => exact capacity_of_serve hserve
  | @bring ticket t ask =>
      cases ask with
      | event e => exact (capacity_settleCall _ _).trans (Intake.capacity_bring ticket e)
      | command c => exact capacity_settleCall _ _
  | callRefused | call | addEventSender | dropEventSender | dropCommandSender | stop
  | serveCommand | requestRefused | request | requestLetIn | requestDismissed | serveMessage
  | dropRequestSender => rfl

theorem capacity_events_happen (hhappen : l.happen h = some l') :
    l'.events.queue.capacity = l.events.queue.capacity := by
  cases h with
  | step now a =>
      rcases step_cases hhappen with ⟨o, st, _, rfl, -, -, rfl⟩ | ⟨-, hturn⟩ | haround
      · cases o <;> rfl
      · exact hturn.capacity_events
      · exact haround.capacity_events
  | takeInbox | dropInbox | stopClient | bring | leave | dropMessageSender | note =>
      cases hhappen
      rfl

theorem capacity_events_run {start : EventLoop} {hs : List Happening}
    (hrun : start.run hs = some l) :
    l.events.queue.capacity = start.events.queue.capacity :=
  Steps.run_induction
    (P := fun _ l => l.events.queue.capacity = start.events.queue.capacity) rfl
    (fun _ _ _ _ _ ih hhappen => (capacity_events_happen hhappen).trans ih) hrun

end Capacity

/-- The loop is going on, its intake for events has room once it is empty, and calls can be
made. -/
structure Dispatches (l : EventLoop) : Prop where
  orderly : Orderly l
  awaits : AwaitsCall l
  capacity : 0 < l.events.queue.capacity

namespace Dispatches

theorem isOpen (hl : Dispatches l) : l.isOpen .events = true := by
  refine Bool.not_eq_false _ |>.mp fun hclosed => ?_
  have hnone := isFor_of_hasSender (hl.orderly.closed .events hclosed).senders
    (hl.awaits.senders (.event (.ofKind "")))
  cases hnone

theorem going (hl : Dispatches l) : l.phase ≠ .exited := fun hexited =>
  Bool.false_ne_true ((hl.orderly.exited.mp hexited .events nofun).symm.trans hl.isOpen)

theorem isListening (hl : Dispatches l) : l.events.queue.isListening = true :=
  Bool.not_eq_false _ |>.mp fun hdeaf => hl.going (hl.orderly.listening .events hdeaf)

theorem of_reaches (hl : Dispatches l)
    (hreaches : Steps.Reaches EventLoop.happen Happening.IsOthers l l') : Dispatches l' := by
  refine ⟨hreaches.keeps hl.orderly ?_, hl.awaits.of_reaches hreaches, ?_⟩
  · exact fun h l l' hothers hhappen hl => hl.happen hothers.ne_stop hhappen
  · obtain ⟨hs, -, hrun⟩ := hreaches
    rw [capacity_events_run hrun]
    exact hl.capacity

theorem isOthers_of_isServing (hserving : isServing .events now h = true) : h.IsOthers := by
  obtain ⟨t, -, rfl | rfl⟩ := exists_of_isServing hserving <;> rfl

theorem line_of_isServing (hserving : isServing .events now h = true)
    (hhappen : l.happen h = some l') : l'.events.line = l.events.line := by
  obtain ⟨t, -, rfl | rfl⟩ := exists_of_isServing hserving
  · rcases step_cases hhappen with ⟨_, _, _, ha, -⟩ | ⟨-, hturn⟩ | haround
    · cases ha
    · exact hturn.line_events
    · cases haround
  · rcases step_cases hhappen with ⟨o, st, _, -, -, -, rfl⟩ | ⟨-, hturn⟩ | haround
    · cases o <;> rfl
    · cases hturn
    · cases haround

theorem exists_served (hl : Dispatches l) :
    ∃ l', Steps.Reaches EventLoop.happen Happening.IsOthers l l' ∧ l'.queued .events = [] ∧
      l'.events.line = l.events.line := by
  obtain ⟨more, l', hmore, hrun, -, hqueued, -⟩ :=
    serve_waiting (s := .events) hl.going hl.isOpen 0
  have hserves : Steps.Reaches EventLoop.happen (fun h => isServing .events 0 h = true) l l' :=
    ⟨more, List.all_eq_true.mp hmore, hrun⟩
  refine ⟨l', hserves.mono fun h => isOthers_of_isServing, hqueued, ?_⟩
  exact hserves.keeps (P := fun l' => l'.events.line = l.events.line) rfl
    fun h l₁ l₂ hserving hhappen hline => (line_of_isServing hserving hhappen).trans hline

theorem exists_emptied (hl : Dispatches l) :
    ∃ l', Steps.Reaches EventLoop.happen Happening.IsOthers l l' ∧ l'.queued .events = [] ∧
      l'.events.line = [] := by
  generalize hline : l.events.line = line
  induction line generalizing l with
  | nil =>
      obtain ⟨l', hreaches, hqueued, hline'⟩ := hl.exists_served
      exact ⟨l', hreaches, hqueued, hline'.trans hline⟩
  | cons x line ih =>
      obtain ⟨l₁, hreaches₁, hqueued₁, hline₁⟩ := hl.exists_served
      have hl₁ := hl.of_reaches hreaches₁
      obtain ⟨events, hletIn, hrest⟩ :=
        Intake.exists_letIn (hline₁.trans hline) hl₁.isListening
        hl₁.capacity hqueued₁
      have hserve : serve l₁.events = some (x.1, none, events) := by rw [serve, hletIn]
      have hadmits : Steps.Reaches EventLoop.happen Happening.IsOthers l₁
          ({ l₁ with events }.answer x.1 none) :=
        .single (a := Happening.step 0 .serveEvent) rfl (Around.serveEvent hserve).step
      obtain ⟨l', hreaches, hempty⟩ := ih (hl₁.of_reaches hadmits) hrest
      exact ⟨l', (hreaches₁.trans hadmits).trans hreaches, hempty⟩

end Dispatches

/-- Once calls have been made one after another, and the loop has not been told to stop, all
their events can be handled, in the order of the calls. -/
theorem exists_dispatched {settings : Settings} {start : EventLoop} {hs : List Happening}
    (hcreate : create settings = .ok start) (hrun : start.run hs = some l)
    (hserial : Serial hs start) (hgoing : ∀ now, .step now .stop ∉ hs)
    (hawaits : AwaitsCall l) :
    ∃ more l', (∀ h ∈ more, h.IsOthers) ∧ l.run more = some l' ∧
      handled .events (hs ++ more) start = (made hs).filterMap Ask.event? := by
  have hl : Dispatches l := by
    refine ⟨(Orderly.run hcreate hrun hgoing).1, hawaits, ?_⟩
    rw [capacity_events_run hrun, eq_of_create hcreate]
    exact (exists_create_iff.mp ⟨start, hcreate⟩).1.1
  obtain ⟨l', ⟨more, hmore, hmoreRun⟩, hqueued, hline⟩ := hl.exists_emptied
  have hl' := hl.of_reaches ⟨more, hmore, hmoreRun⟩
  have hrun' : start.run (hs ++ more) = some l' := (Steps.run_append hrun).trans hmoreRun
  have hmade : made (hs ++ more) = made hs := by
    have hnone : made more = [] := List.flatMap_eq_nil_iff.mpr fun h hh => (hmore h hh).making
    rw [made_append, hnone, List.append_nil]
  have hserial' : Serial (hs ++ more) start := by
    refine hserial.append hrun ?_
    exact Steps.seen_eq_nil (P := fun _ => True) trivial
      fun h hh _ _ _ _ => ⟨(hmore h hh).ahead, trivial⟩
  have hgoing' : ∀ now, .step now .stop ∉ hs ++ more := by
    intro now hmem
    exact (List.mem_append.mp hmem).elim (hgoing now) fun hmem => (hmore _ hmem).ne_stop now rfl
  have harrivals := (Orderly.run hcreate hrun' hgoing').2.1 .events nofun
  have hall := (hserial'.inOrder hcreate hrun').going hl'.isListening hl'.awaits.going
  have hcoming : l'.coming = [] := by rw [coming, hline, hl'.awaits.begun]; rfl
  refine ⟨more, l', hmore, hmoreRun, ?_⟩
  rwa [hmade, hcoming, List.append_nil, harrivals, hqueued, List.append_nil] at hall

end EventLoop

end HookRelay
