import HookRelay.Proofs.EventLoop.Calls
import HookRelay.Proofs.EventLoop.Handling
import HookRelay.Proofs.EventLoop.Transparency

namespace HookRelay

theorem Intake.line_of_take_disconnected {α : Type} {i i' : Intake α}
    (h : i.take = (.disconnected, i')) : i.line = [] := by
  unfold take at h
  split at h
  · cases h
  · split at h
    · next hline => exact List.isEmpty_iff.mp hline
    · cases h
  · cases h

theorem Intake.bring_ne_refused {α : Type} {i : Intake α} {ticket : Nat} {a : α}
    (hlistening : i.queue.isListening = true) : (i.bring ticket a).1 ≠ .refused := by
  intro hrefused
  rw [isListening_of_refused (Prod.ext hrefused rfl)] at hlistening
  cases hlistening

namespace EventLoop

/-- Whether a call comes to this intake. -/
def Source.isFor (s : Source) (ask : Ask) : Bool :=
  match s with
  | .events => ask.isEvent
  | .commands => !ask.isEvent
  | .requests | .messages => false

/-- Nothing is left at an intake, and nothing can come to it any more. -/
structure Exhausted (s : Source) (l : EventLoop) : Prop where
  senders : (l.intake s).queue.senders = 0
  items : l.queued s = []
  line : (l.intake s).line = []
  begun : l.hasBegun s.isFor = false

variable {s : Source} {l l' : EventLoop} {a : Action} {h : Happening} {now : Nat}

theorem isFor_of_begun {ticket : Nat} {x : Nat × Ask} (hbegun : l.hasBegun s.isFor = false)
    (hfind : l.begun.find? (·.1 == ticket) = some x) : s.isFor x.2 = false :=
  Bool.eq_false_iff.mpr (List.any_eq_false.mp hbegun x (List.mem_of_find?_eq_some hfind))

theorem isFor_of_hasSender {ask : Ask} (hsenders : (l.intake s).queue.senders = 0)
    (hsender : l.hasSender ask = true) : s.isFor ask = false := by
  cases s with
  | events =>
      change l.events.queue.senders = 0 at hsenders
      cases ask with
      | event e => simp [hasSender, Ask.isEvent, hsenders] at hsender
      | command c => rfl
  | commands =>
      change l.commands.queue.senders = 0 at hsenders
      cases ask with
      | event e => rfl
      | command c => simp [hasSender, Ask.isEvent, hsenders] at hsender
  | requests | messages => rfl

theorem line_ne_nil_of_serve {α : Type} {i i' : Intake α} {ticket : Nat} {e : Option CallError}
    (hserve : serve i = some (ticket, e, i')) : i.line ≠ [] := by
  intro hline
  simp [serve, Intake.letIn, Intake.dismiss, hline] at hserve

theorem error_of_serve {α : Type} {i i' : Intake α} {ticket : Nat} {e : Option CallError}
    (hserve : serve i = some (ticket, e, i')) (hlistening : i.queue.isListening = true) :
    e = none := by
  unfold serve at hserve
  split at hserve
  · cases hserve
    rfl
  · obtain ⟨⟨t, j⟩, hdismiss, -⟩ := Option.map_eq_some_iff.mp hserve
    rw [Intake.isListening_of_dismiss hdismiss] at hlistening
    cases hlistening

theorem intake_bringAsk {ticket : Nat} {ask : Ask} (hask : s.isFor ask = false) :
    (bringAsk ticket ask l).intake s = l.intake s := by
  cases ask with
  | event e =>
      dsimp only [bringAsk]
      rw [intake_settleCall]
      cases s with
      | events => cases hask
      | commands | requests | messages => rfl
  | command c =>
      dsimp only [bringAsk]
      rw [intake_settleCall]
      cases s with
      | commands => cases hask
      | events | requests | messages => rfl

theorem exists_bringAsk (ticket : Nat) (ask : Ask) (l : EventLoop) :
    ∃ events commands answers, bringAsk ticket ask l = { l with events, commands, answers } ∧
      Intake.SameEnds l.events events ∧ Intake.SameEnds l.commands commands := by
  have hsettle : ∀ (entry : Entry) (l : EventLoop),
      ∃ answers, settleCall ticket entry l = { l with answers } := by
    intro entry l
    cases entry <;> exact ⟨_, rfl⟩
  cases ask with
  | event e =>
      obtain ⟨answers, hanswers⟩ :=
        hsettle (l.events.bring ticket e).1 { l with events := (l.events.bring ticket e).2 }
      exact ⟨_, _, answers, hanswers, Intake.sameEnds_bring ticket e, .of_queue_eq rfl⟩
  | command c =>
      obtain ⟨answers, hanswers⟩ :=
        hsettle (l.commands.bring ticket c).1 { l with commands := (l.commands.bring ticket c).2 }
      exact ⟨_, _, answers, hanswers, .of_queue_eq rfl, Intake.sameEnds_bring ticket c⟩

theorem begun_bringAsk (ticket : Nat) (ask : Ask) : (bringAsk ticket ask l).begun = l.begun := by
  obtain ⟨_, _, _, hbring, -⟩ := exists_bringAsk ticket ask l
  rw [hbring]

/-- No call has been made, and none has been told anything, nor has the loop been told to
stop. -/
structure SameCalls (l l' : EventLoop) : Prop where
  stopping : l'.stopping = l.stopping
  begun : l'.begun = l.begun
  answers : l'.answers = l.answers

theorem Turn.sameCalls (hturn : Turn now l a l') : SameCalls l l' := by
  cases hturn with
  | quits | event | command | message => exact ⟨rfl, rfl, rfl⟩
  | request =>
      unfold register
      split <;> exact ⟨rfl, rfl, rfl⟩
  | noEvent | noCommand | noRequest =>
      unfold checkOver
      split <;> exact ⟨rfl, rfl, rfl⟩

/-- The loop polls the same intakes as before, and listens at the same ones. -/
structure SamePolls (l l' : EventLoop) : Prop where
  isOpen : ∀ s, l'.isOpen s = l.isOpen s
  phase : l'.phase = l.phase
  receiver : ∀ s, (l'.intake s).queue.receiver = (l.intake s).queue.receiver

theorem samePolls_bringAsk (ticket : Nat) (ask : Ask) : SamePolls l (bringAsk ticket ask l) := by
  obtain ⟨events, commands, answers, hbring, hevents, hcommands⟩ := exists_bringAsk ticket ask l
  rw [hbring]
  refine ⟨fun s => by cases s <;> rfl, rfl, fun s => ?_⟩
  cases s with
  | events => exact hevents.receiver
  | commands => exact hcommands.receiver
  | requests | messages => rfl

theorem Around.samePolls (haround : Around l a l') : SamePolls l l' := by
  have hopen : ∀ {l' : EventLoop}, l'.eventsOpen = l.eventsOpen →
      l'.commandsOpen = l.commandsOpen →
      l'.requestsOpen = l.requestsOpen → ∀ s, l'.isOpen s = l.isOpen s := by
    intro l' hevents hcommands hrequests s
    cases s with
    | events => exact hevents
    | commands => exact hcommands
    | requests => exact hrequests
    | messages => rfl
  cases haround with
  | @bring ticket t ask =>
      have hpolls := samePolls_bringAsk (l := { l with begun := l.begun.eraseP (·.1 == ticket) })
        ticket ask
      refine ⟨fun s => ?_, hpolls.phase, fun s => ?_⟩
      · rw [hpolls.isOpen]
        cases s <;> rfl
      · rw [hpolls.receiver]
        cases s <;> rfl
  | serveEvent hserve =>
      refine ⟨hopen rfl rfl rfl, rfl, fun s => ?_⟩
      cases s with
      | events => exact (sameEnds_serve hserve).receiver
      | commands | requests | messages => rfl
  | serveCommand hserve =>
      refine ⟨hopen rfl rfl rfl, rfl, fun s => ?_⟩
      cases s with
      | commands => exact (sameEnds_serve hserve).receiver
      | events | requests | messages => rfl
  | request _ _ hbring =>
      refine ⟨hopen rfl rfl rfl, rfl, fun s => ?_⟩
      cases s with
      | requests => exact (Intake.sameEnds_of_bring hbring).receiver
      | events | commands | messages => rfl
  | requestLetIn hletIn =>
      refine ⟨hopen rfl rfl rfl, rfl, fun s => ?_⟩
      cases s with
      | requests => exact (Intake.sameEnds_letIn hletIn).receiver
      | events | commands | messages => rfl
  | requestDismissed _ hdismiss =>
      refine ⟨hopen rfl rfl rfl, rfl, fun s => ?_⟩
      cases s with
      | requests => exact congrArg Mailbox.receiver (Intake.queue_of_dismiss hdismiss)
      | events | commands | messages => rfl
  | serveMessage hletIn =>
      refine ⟨hopen rfl rfl rfl, rfl, fun s => ?_⟩
      cases s with
      | messages => exact (Intake.sameEnds_letIn hletIn).receiver
      | events | commands | requests => rfl
  | callRefused | call | requestRefused | addEventSender | dropEventSender | dropCommandSender
  | dropRequestSender | stop =>
      exact ⟨hopen rfl rfl rfl, rfl, fun s => by cases s <;> rfl⟩

namespace Exhausted

theorem of_intake (hl : Exhausted s l) (hintake : l'.intake s = l.intake s)
    (hbegun : l'.hasBegun s.isFor = false) : Exhausted s l' where
  senders := by rw [hintake, hl.senders]
  items := by rw [queued, hintake]; exact hl.items
  line := by rw [hintake, hl.line]
  begun := hbegun

theorem around (hs : s ≠ .messages) (hl : Exhausted s l) (haround : Around l a l') :
    Exhausted s l' := by
  cases haround with
  | @call ticket ask hsender =>
      refine hl.of_intake (by cases s <;> rfl) ?_
      rw [hasBegun, List.any_append, ← hasBegun, hl.begun]
      simp [isFor_of_hasSender hl.senders hsender]
  | @bring ticket t ask hfind =>
      refine hl.of_intake ?_ ?_
      · rw [intake_bringAsk (isFor_of_begun hl.begun hfind)]
        cases s <;> rfl
      · rw [hasBegun, begun_bringAsk]
        refine List.any_eq_false.mpr fun c hc => ?_
        exact List.any_eq_false.mp hl.begun c (List.mem_of_mem_eraseP hc)
  | serveEvent hserve =>
      cases s with
      | events => exact absurd hl.line (line_ne_nil_of_serve hserve)
      | commands | requests | messages => exact hl.of_intake rfl hl.begun
  | serveCommand hserve =>
      cases s with
      | commands => exact absurd hl.line (line_ne_nil_of_serve hserve)
      | events | requests | messages => exact hl.of_intake rfl hl.begun
  | request hsenders =>
      cases s with
      | requests => exact absurd hl.senders hsenders
      | events | commands | messages => exact hl.of_intake rfl hl.begun
  | requestLetIn hletIn =>
      cases s with
      | requests =>
          obtain ⟨b, hline, -⟩ := Intake.exists_of_letIn hletIn
          exact absurd (hline.symm.trans hl.line) (List.cons_ne_nil _ _)
      | events | commands | messages => exact hl.of_intake rfl hl.begun
  | requestDismissed _ hdismiss =>
      cases s with
      | requests =>
          obtain ⟨b, hline⟩ := Intake.exists_of_dismiss hdismiss
          exact absurd (hline.symm.trans hl.line) (List.cons_ne_nil _ _)
      | events | commands | messages => exact hl.of_intake rfl hl.begun
  | serveMessage =>
      cases s with
      | messages => exact absurd rfl hs
      | events | commands | requests => exact hl.of_intake rfl hl.begun
  | addEventSender hsenders =>
      cases s with
      | events => exact absurd hl.senders hsenders
      | commands | requests | messages => exact hl.of_intake rfl hl.begun
  | dropEventSender | dropCommandSender | dropRequestSender =>
      refine ⟨?_, by cases s <;> exact hl.items, by cases s <;> exact hl.line, hl.begun⟩
      have hsenders := hl.senders
      have hfewer : (l.intake s).queue.senders - 1 = 0 := by omega
      cases s <;> first | exact hsenders | exact hfewer
  | callRefused | requestRefused | stop => exact hl.of_intake (by cases s <;> rfl) hl.begun

theorem exit (hl : Exhausted s l) : Exhausted s l.exit where
  senders := by cases s <;> exact hl.senders
  items := by cases s <;> rfl
  line := by cases s <;> exact hl.line
  begun := hl.begun

theorem checkOver (hl : Exhausted s l) : Exhausted s l.checkOver := by
  unfold EventLoop.checkOver
  split
  · exact hl
  · exact hl.exit

theorem not_take {i : Intake s.Item} {x : s.Item} (hl : Exhausted s l) :
    (l.intake s).take ≠ (.item x, i) := fun htake =>
  List.cons_ne_nil _ _ ((Intake.items_of_take htake).symm.trans hl.items)

theorem turn (hs : s ≠ .messages) (hl : Exhausted s l) (hturn : Turn now l a l') :
    Exhausted s l' := by
  have hbegun : l'.hasBegun s.isFor = false := by
    rw [hasBegun, hturn.sameCalls.begun]
    exact hl.begun
  cases hturn with
  | quits => exact hl.exit
  | noEvent | noCommand | noRequest =>
      exact checkOver (hl.of_intake (by cases s <;> rfl) hl.begun)
  | event _ htake =>
      cases s with
      | events => exact absurd htake hl.not_take
      | commands | requests | messages => exact hl.of_intake rfl hl.begun
  | command _ htake =>
      cases s with
      | commands => exact absurd htake hl.not_take
      | events | requests | messages => exact hl.of_intake rfl hl.begun
  | @request socket requests _ htake =>
      cases s with
      | requests => exact absurd htake hl.not_take
      | messages => exact absurd rfl hs
      | events | commands =>
          refine hl.of_intake ?_ hbegun
          unfold register
          split <;> rfl
  | message =>
      cases s with
      | messages => exact absurd rfl hs
      | events | commands | requests => exact hl.of_intake rfl hl.begun

theorem happen (hs : s ≠ .messages) (hl : Exhausted s l) (hhappen : l.happen h = some l') :
    Exhausted s l' := by
  cases h with
  | step now a =>
      rcases step_cases hhappen with ⟨o, st, _, rfl, -, -, rfl⟩ | ⟨-, hturn⟩ | haround
      · cases o <;> exact hl.of_intake (by cases s <;> rfl) hl.begun
      · exact hl.turn hs hturn
      · exact hl.around hs haround
  | takeInbox | dropInbox | stopClient | note =>
      cases hhappen
      exact hl.of_intake (by cases s <;> rfl) hl.begun
  | bring | leave | dropMessageSender =>
      cases hhappen
      cases s with
      | messages => exact absurd rfl hs
      | events | commands | requests => exact hl.of_intake rfl hl.begun

/-- The loop finds an intake closed only when nothing is left there and nothing can come. -/
theorem of_disconnected {i : Intake s.Item} (hlistening : (l.intake s).queue.isListening = true)
    (htake : (l.intake s).take = (.disconnected, i)) (hbegun : l.hasBegun s.isFor = false) :
    Exhausted s l where
  senders := by
    have hover := Intake.isOver_of_take htake
    rw [Mailbox.isOver, hlistening] at hover
    exact of_decide_eq_true hover
  items := Intake.items_of_take_disconnected htake
  line := Intake.line_of_take_disconnected htake
  begun := hbegun

end Exhausted

theorem ne_messages_of_closed (hclosed : l.isOpen s = false) : s ≠ .messages := by
  rintro rfl
  cases hclosed

theorem isOpen_checkOver : l.checkOver.isOpen s = l.isOpen s := by
  unfold checkOver
  split
  · rfl
  · cases s <;> rfl

theorem Turn.isOpen (hturn : Turn now l a l') (hclosed : l'.isOpen s = false) :
    l.isOpen s = false ∨
      (∃ i, (l.intake s).take = (.disconnected, i)) ∧ l.hasBegun s.isFor = false := by
  cases hturn with
  | quits | event | command | message => exact .inl (by cases s <;> exact hclosed)
  | request =>
      rw [isOpen_register] at hclosed
      exact .inl (by cases s <;> exact hclosed)
  | noEvent _ htake hbegun =>
      rw [isOpen_checkOver] at hclosed
      cases s with
      | events => exact .inr ⟨⟨_, htake⟩, hbegun⟩
      | commands | requests | messages => exact .inl hclosed
  | noCommand _ htake hbegun =>
      rw [isOpen_checkOver] at hclosed
      cases s with
      | commands => exact .inr ⟨⟨_, htake⟩, hbegun⟩
      | events | requests | messages => exact .inl hclosed
  | noRequest _ htake =>
      rw [isOpen_checkOver] at hclosed
      cases s with
      | requests =>
          exact .inr ⟨⟨_, htake⟩, List.any_eq_false.mpr fun _ _ => Bool.false_ne_true⟩
      | events | commands | messages => exact .inl hclosed

theorem isOpen_of_turn (hturn : Turn now l a l') (hclosed : l.isOpen s = false) :
    l'.isOpen s = false := by
  cases hturn with
  | quits | event | command | message => cases s <;> exact hclosed
  | request =>
      rw [isOpen_register]
      cases s <;> exact hclosed
  | noEvent | noCommand | noRequest =>
      rw [isOpen_checkOver]
      cases s <;> first | rfl | exact hclosed

/-- An intake that is not polled any more is never polled again. -/
theorem isOpen_happen (hclosed : l.isOpen s = false) (hhappen : l.happen h = some l') :
    l'.isOpen s = false := by
  cases h with
  | step now a =>
      rcases step_cases hhappen with ⟨o, st, _, rfl, -, -, rfl⟩ | ⟨-, hturn⟩ | haround
      · cases o <;> cases s <;> exact hclosed
      · exact isOpen_of_turn hturn hclosed
      · rw [haround.samePolls.isOpen, hclosed]
  | takeInbox | dropInbox | stopClient | note | bring | leave | dropMessageSender =>
      cases hhappen
      cases s <;> exact hclosed

theorem isOpen_run {hs : List Happening} (hclosed : l.isOpen s = false)
    (hrun : l.run hs = some l') : l'.isOpen s = false :=
  Steps.run_induction (P := fun _ l' => l'.isOpen s = false) hclosed
    (fun _ _ _ _ _ ih hhappen => isOpen_happen ih hhappen) hrun

theorem poll_of_closed (hclosed : l.isOpen s = false) (now : Nat) : l.step now s.poll = none := by
  rw [Option.eq_none_iff_forall_ne_some]
  intro l' hstep
  have hnot : ∀ {b : Bool}, b = true → b = false → False := fun hopen hclosed =>
    Bool.false_ne_true (hclosed.symm.trans hopen)
  rcases step_cases hstep with ⟨o, st, _, ha, -⟩ | ⟨-, hturn⟩ | haround
  · cases s <;> cases ha
  · cases s with
    | events => cases hturn with | event hopen | noEvent hopen => exact hnot hopen hclosed
    | commands => cases hturn with | command hopen | noCommand hopen => exact hnot hopen hclosed
    | requests => cases hturn with | request hopen | noRequest hopen => exact hnot hopen hclosed
    | messages => cases hclosed
  · cases s <;> cases haround

theorem Turn.receiver (hturn : Turn now l a l') (hgoing : l'.phase ≠ .exited) (s : Source) :
    (l'.intake s).queue.receiver = (l.intake s).queue.receiver := by
  cases hturn with
  | quits => exact absurd rfl hgoing
  | noEvent | noCommand | noRequest =>
      rw [intake_checkOver hgoing]
      cases s <;> rfl
  | event _ htake =>
      cases s with
      | events => exact (Intake.sameEnds_take htake).receiver
      | commands | requests | messages => rfl
  | command _ htake =>
      cases s with
      | commands => exact (Intake.sameEnds_take htake).receiver
      | events | requests | messages => rfl
  | @request socket requests _ htake =>
      have hregister : (({ l with requests }.register socket).intake s).queue.receiver =
          (({ l with requests } : EventLoop).intake s).queue.receiver := by
        unfold register
        split <;> cases s <;> rfl
      rw [hregister]
      cases s with
      | requests => exact (Intake.sameEnds_take htake).receiver
      | events | commands | messages => rfl
  | message htake =>
      cases s with
      | messages => exact (Intake.sameEnds_take htake).receiver
      | events | commands | requests => rfl

/-- The loop polls no intake any more but the one for messages. -/
def PollsNothing (l : EventLoop) : Prop := ∀ s, s ≠ .messages → l.isOpen s = false

theorem pollsNothing_iff :
    l.PollsNothing ↔ (l.eventsOpen || l.commandsOpen || l.requestsOpen) = false := by
  rw [Bool.or_eq_false_iff, Bool.or_eq_false_iff]
  constructor
  · intro hclosed
    exact ⟨⟨hclosed .events nofun, hclosed .commands nofun⟩, hclosed .requests nofun⟩
  · rintro ⟨⟨hevents, hcommands⟩, hrequests⟩ s hs
    cases s with
    | events => exact hevents
    | commands => exact hcommands
    | requests => exact hrequests
    | messages => exact absurd rfl hs

theorem PollsNothing.of_isOpen (hopen : ∀ s, l'.isOpen s = l.isOpen s) :
    l'.PollsNothing ↔ l.PollsNothing := by
  rw [PollsNothing, PollsNothing]
  simp only [hopen]

theorem exited_checkOver_iff (hgoing : l.phase ≠ .exited) :
    l.checkOver.phase = .exited ↔ l.checkOver.PollsNothing := by
  rw [PollsNothing.of_isOpen fun s => isOpen_checkOver, pollsNothing_iff, checkOver]
  split
  · next hopen =>
    exact ⟨fun h => absurd h hgoing, fun h => absurd hopen (Bool.eq_false_iff.mp h)⟩
  · next hover => exact ⟨fun _ => Bool.eq_false_iff.mpr hover, fun _ => rfl⟩

/-- A loop that has not been told to stop ends at the turn after which it polls nothing. -/
theorem Turn.exited_iff (hturn : Turn now l a l') (hready : l.phase = .ready)
    (hgoing : l.stopping = false) (hpolls : ¬ l.PollsNothing) :
    l'.phase = .exited ↔ l'.PollsNothing := by
  have hnot : l.phase ≠ .exited := by simp [hready]
  have hgoes : ∀ {l' : EventLoop}, l'.phase ≠ .exited → (∀ s, l'.isOpen s = l.isOpen s) →
      (l'.phase = .exited ↔ l'.PollsNothing) := by
    intro l' hphase hopen
    rw [PollsNothing.of_isOpen hopen]
    exact ⟨fun h => absurd h hphase, fun h => absurd h hpolls⟩
  cases hturn with
  | quits hstopping =>
      rw [hgoing] at hstopping
      cases hstopping
  | event | command => exact hgoes hnot fun s => by cases s <;> rfl
  | message => exact hgoes nofun fun s => by cases s <;> rfl
  | @request socket requests =>
      have hregister : ({ l with requests }.register socket).phase = .ready :=
        phase_register socket hready
      refine hgoes (by simp [hregister]) fun s => ?_
      rw [isOpen_register]
      cases s <;> rfl
  | noEvent | noCommand | noRequest => exact exited_checkOver_iff hnot

end EventLoop

end HookRelay
