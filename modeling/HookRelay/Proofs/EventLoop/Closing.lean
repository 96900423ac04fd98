import HookRelay.Proofs.EventLoop.Audience
import HookRelay.Proofs.EventLoop.Exhaustion
import HookRelay.Proofs.EventLoop.Registrations

namespace HookRelay.EventLoop

variable {s : Source} {l l' : EventLoop} {a : Action} {h : Happening} {now : Nat}

theorem poll_of_exhausted (hready : l.phase = .ready) (hs : s ≠ .messages)
    (hleft : Exhausted s l) (hopen : l.isOpen s = true) (now : Nat) :
    ∃ l', l.step now s.poll = some l' ∧ l'.isOpen s = false ∧
      (l'.phase = .ready ∨ l'.phase = .exited) := by
  have htake : (l.intake s).take = (.disconnected, l.intake s) := by
    refine Intake.take_of_isOver ?_ hleft.items hleft.line
    simp [Mailbox.isOver, hleft.senders]
  have hphase : ∀ {l : EventLoop}, l.phase = .ready →
      l.checkOver.phase = .ready ∨ l.checkOver.phase = .exited := by
    intro l hready
    unfold checkOver
    split
    · exact .inl hready
    · exact .inr rfl
  have hturn : ∀ {l'}, Turn now l s.poll l' → l'.isOpen s = false →
      l'.phase = .ready ∨ l'.phase = .exited → ∃ l', l.step now s.poll = some l' ∧
        l'.isOpen s = false ∧ (l'.phase = .ready ∨ l'.phase = .exited) :=
    fun hturn hclosed hphase => ⟨_, hturn.step hready, hclosed, hphase⟩
  cases s with
  | events =>
      exact hturn (.noEvent hopen htake hleft.begun) (by rw [isOpen_checkOver]; rfl) (hphase hready)
  | commands =>
      exact hturn (.noCommand hopen htake hleft.begun) (by rw [isOpen_checkOver]; rfl)
        (hphase hready)
  | requests => exact hturn (.noRequest hopen htake) (by rw [isOpen_checkOver]; rfl) (hphase hready)
  | messages => exact absurd rfl hs

/-- A loop that has not been told to stop. It has stopped polling an intake only once that is
exhausted, it ends only once it polls none, and it has turned no call down. -/
structure Orderly (l : EventLoop) : Prop where
  going : l.stopping = false
  closed : ∀ s, l.isOpen s = false → Exhausted s l
  listening : ∀ s, (l.intake s).queue.isListening = false → l.phase = .exited
  exited : l.phase = .exited ↔ l.PollsNothing
  served : l.turnedDown = []

namespace Orderly

theorem of_create {settings : Settings} (hcreate : create settings = .ok l) : Orderly l := by
  rw [eq_of_create hcreate]
  refine ⟨rfl, fun s hs => ?_, fun s hs => ?_, ⟨nofun, fun hpolls => ?_⟩, rfl⟩
  · cases s <;> cases hs
  · cases s <;> cases hs
  · cases hpolls .events nofun

theorem exhausted_of_turn (hl : Orderly l) (hready : l.phase = .ready) (hturn : Turn now l a l')
    (hclosed : l'.isOpen s = false) : Exhausted s l := by
  rcases hturn.isOpen hclosed with hclosed | ⟨⟨i, htake⟩, hbegun⟩
  · exact hl.closed s hclosed
  · refine .of_disconnected ?_ htake hbegun
    refine Bool.not_eq_false _ |>.mp fun hdeaf => ?_
    rw [hl.listening s hdeaf] at hready
    cases hready

theorem turn (hl : Orderly l) (hready : l.phase = .ready) (hturn : Turn now l a l') :
    Orderly l' where
  going := hturn.sameCalls.stopping.trans hl.going
  closed s hclosed :=
    (hl.exhausted_of_turn hready hturn hclosed).turn (ne_messages_of_closed hclosed) hturn
  listening s hdeaf := by
    by_contra hgoing
    rw [Mailbox.isListening, hturn.receiver hgoing, ← Mailbox.isListening] at hdeaf
    rw [hl.listening s hdeaf] at hready
    cases hready
  exited := by
    refine hturn.exited_iff hready hl.going fun hpolls => ?_
    rw [hl.exited.mpr hpolls] at hready
    cases hready
  served := by rw [turnedDown, hturn.sameCalls.answers, ← turnedDown, hl.served]

theorem isListening_of_not_exhausted (hl : Orderly l) (hs : s ≠ .messages)
    (hleft : ¬ Exhausted s l) : (l.intake s).queue.isListening = true := by
  refine Bool.not_eq_false _ |>.mp fun hdeaf => hleft ?_
  exact hl.closed s (hl.exited.mp (hl.listening s hdeaf) s hs)

theorem callers_settleCall (hl : Orderly l) {ticket : Nat} {entry : Entry}
    (hgoing : l'.stopping = l.stopping) (hturnedDown : l'.turnedDown = l.turnedDown)
    (hentry : entry ≠ .refused) :
    (settleCall ticket entry l').stopping = false ∧
      (settleCall ticket entry l').turnedDown = [] := by
  cases entry with
  | accepted =>
      refine ⟨hgoing.trans hl.going, (turnedDown_answer ticket none).trans ?_⟩
      rw [hturnedDown, hl.served]
      rfl
  | waits => exact ⟨hgoing.trans hl.going, hturnedDown.trans hl.served⟩
  | refused => exact absurd rfl hentry

theorem turnedDown_serve (hl : Orderly l) {α : Type} {i i' : Intake α} {ticket : Nat}
    {e : Option CallError} (hturnedDown : l'.turnedDown = l.turnedDown)
    (hlistening : i.queue.isListening = true) (hserve : serve i = some (ticket, e, i')) :
    (l'.answer ticket e).turnedDown = [] := by
  rw [turnedDown_answer, error_of_serve hserve hlistening, hturnedDown, hl.served]
  rfl

/-- No call is turned down, unless the loop is told to stop. -/
theorem callers_around (hl : Orderly l) (haround : Around l a l') (hstop : a ≠ .stop) :
    l'.stopping = false ∧ l'.turnedDown = [] := by
  cases haround with
  | callRefused _ hstopping =>
      rw [hl.going] at hstopping
      cases hstopping
  | @bring ticket t ask hfind =>
      cases ask with
      | event e =>
          have hlistening := hl.isListening_of_not_exhausted (s := .events) nofun fun hleft =>
            Bool.false_ne_true (isFor_of_begun hleft.begun hfind).symm
          exact hl.callers_settleCall rfl rfl (Intake.bring_ne_refused hlistening)
      | command c =>
          have hlistening := hl.isListening_of_not_exhausted (s := .commands) nofun fun hleft =>
            Bool.false_ne_true (isFor_of_begun hleft.begun hfind).symm
          exact hl.callers_settleCall rfl rfl (Intake.bring_ne_refused hlistening)
  | serveEvent hserve =>
      refine ⟨hl.going, hl.turnedDown_serve rfl ?_ hserve⟩
      exact hl.isListening_of_not_exhausted (s := .events) nofun fun hleft =>
        line_ne_nil_of_serve hserve hleft.line
  | serveCommand hserve =>
      refine ⟨hl.going, hl.turnedDown_serve rfl ?_ hserve⟩
      exact hl.isListening_of_not_exhausted (s := .commands) nofun fun hleft =>
        line_ne_nil_of_serve hserve hleft.line
  | stop => exact absurd rfl hstop
  | call | requestRefused | request | requestLetIn | requestDismissed | serveMessage
  | addEventSender | dropEventSender | dropCommandSender | dropRequestSender =>
      exact ⟨hl.going, hl.served⟩

theorem around (hl : Orderly l) (haround : Around l a l') (hstop : a ≠ .stop) : Orderly l' where
  going := (hl.callers_around haround hstop).1
  closed s hclosed := by
    rw [haround.samePolls.isOpen] at hclosed
    exact (hl.closed s hclosed).around (ne_messages_of_closed hclosed) haround
  listening s hdeaf := by
    rw [Mailbox.isListening, haround.samePolls.receiver, ← Mailbox.isListening] at hdeaf
    rw [haround.samePolls.phase, hl.listening s hdeaf]
  exited := by
    rw [haround.samePolls.phase, PollsNothing.of_isOpen haround.samePolls.isOpen]
    exact hl.exited
  served := (hl.callers_around haround hstop).2

theorem of_same (hl : Orderly l) (hopen : ∀ s, l'.isOpen s = l.isOpen s)
    (hintake : ∀ s, s ≠ .messages → l'.intake s = l.intake s)
    (houtbox : l'.outbox.queue.receiver = l.outbox.queue.receiver)
    (hphase : l.phase = .exited ↔ l'.phase = .exited) (hbegun : l'.begun = l.begun)
    (hgoing : l'.stopping = l.stopping) (hturnedDown : l'.turnedDown = l.turnedDown) :
    Orderly l' where
  going := hgoing.trans hl.going
  closed s hclosed := by
    rw [hopen] at hclosed
    refine (hl.closed s hclosed).of_intake (hintake s (ne_messages_of_closed hclosed)) ?_
    rw [hasBegun, hbegun, ← hasBegun, (hl.closed s hclosed).begun]
  listening s hdeaf := by
    refine hphase.mp (hl.listening s ?_)
    by_cases hs : s = .messages
    · subst hs
      rwa [Mailbox.isListening, intake, houtbox] at hdeaf
    · rwa [hintake s hs] at hdeaf
  exited := by rw [PollsNothing.of_isOpen hopen, ← hphase, hl.exited]
  served := hturnedDown.trans hl.served

theorem finishChat (hl : Orderly l) {st : Stanza} {since : Nat}
    (hphase : l.phase = .forwarding st since) (o : ChatOutcome) : Orderly (l.finishChat st o) := by
  refine hl.of_same (fun s => by cases o <;> cases s <;> rfl)
    (fun s _ => by cases o <;> cases s <;> rfl) (by cases o <;> rfl) ?_ (by cases o <;> rfl)
    (by cases o <;> rfl) (by cases o <;> rfl)
  rw [hphase]
  cases o <;> exact ⟨nofun, nofun⟩

theorem happen (hl : Orderly l) (hstop : ∀ now, h ≠ .step now .stop)
    (hhappen : l.happen h = some l') : Orderly l' := by
  cases h with
  | step now a =>
      rcases step_cases hhappen with
        ⟨o, st, _, rfl, hphase, -, rfl⟩ | ⟨hready, hturn⟩ | haround
      · exact hl.finishChat hphase o
      · exact hl.turn hready hturn
      · exact hl.around haround fun ha => hstop now (congrArg (Happening.step now) ha)
  | takeInbox | dropInbox | stopClient | note =>
      cases hhappen
      exact hl.of_same (fun s => by cases s <;> rfl) (fun s _ => by cases s <;> rfl) rfl .rfl rfl
        rfl rfl
  | bring ticket m =>
      cases hhappen
      exact hl.of_same (fun s => by cases s <;> rfl)
        (fun s hs => by cases s <;> first | rfl | exact absurd rfl hs)
        (Intake.sameEnds_bring ticket m).receiver .rfl rfl rfl rfl
  | leave | dropMessageSender =>
      cases hhappen
      exact hl.of_same (fun s => by cases s <;> rfl)
        (fun s hs => by cases s <;> first | rfl | exact absurd rfl hs) rfl .rfl rfl rfl rfl

/-- Nothing is lost at the step at which the loop ends either, since nothing is left then. -/
theorem conserves (hl : Orderly l) (hs : s ≠ .messages) (hhappen : l.happen h = some l') :
    Conserves s h l l' := by
  by_cases hphase : l'.phase = .exited
  · cases h with
    | step now a =>
        rcases step_cases hhappen with
          ⟨o, st, _, rfl, -, -, rfl⟩ | ⟨hready, hturn⟩ | haround
        · exact finishChat_conserves st o o
        · have hleft := hl.exhausted_of_turn hready hturn
            ((hl.turn hready hturn).exited.mp hphase s hs)
          refine .of_queued_eq ?_ (by cases hturn <;> cases s <;> rfl)
            (hturn.handling_of_exited hready hphase)
          rw [hleft.items, (hleft.turn hs hturn).items]
        · exact haround.conserves
    | takeInbox | dropInbox | stopClient | bring | leave | dropMessageSender | note =>
        cases hhappen
        cases s <;> first | exact .of_queued_eq rfl rfl rfl | exact absurd rfl hs
  · exact happen_conserves hphase hhappen

theorem replies_turn (hl : Orderly l) (hready : l.phase = .ready) (hturn : Turn now l a l') :
    l'.replies = l.replies ++ (l.handling .requests (.step now a)).map fun socket =>
      l.decision socket := by
  -- A loop that ends turns down the requests that it holds, and there are none.
  have hover : ∀ {m : EventLoop}, l'.phase = .exited → l' = m.exit → m.replies = l.replies →
      m.requests = l.requests → l'.replies = l.replies := by
    rintro m hexits rfl hreplies hrequests
    have hleft := hl.exhausted_of_turn hready hturn
      ((hl.turn hready hturn).exited.mp hexits .requests nofun)
    have hitems : l.requests.queue.items = [] := hleft.items
    change m.replies ++ m.requests.queue.items.map _ = _
    rw [hreplies, hrequests, hitems, List.map_nil, List.append_nil]
  have hcheckOver : ∀ {m : EventLoop}, l' = m.checkOver → m.replies = l.replies →
      m.requests = l.requests → l'.replies = l.replies := by
    rintro m hm hreplies hrequests
    unfold checkOver at hm
    split at hm
    · rw [hm, hreplies]
    · exact hover (by rw [hm]; rfl) hm hreplies hrequests
  cases hturn with
  | quits hstopping =>
      rw [hl.going] at hstopping
      cases hstopping
  | event | command | message => exact (List.append_nil _).symm
  | @request socket requests _ htake =>
      have hhandling : l.handling .requests (.step now .takeRequest) = [socket] := by
        change l.requests.queue.items.take 1 = [socket]
        rw [Intake.items_of_take htake]
        rfl
      rw [hhandling]
      exact (register_replies (l := { l with requests }) socket).2
  | noEvent | noCommand => rw [hcheckOver rfl rfl rfl]; exact (List.append_nil _).symm
  | noRequest _ htake =>
      have hhandling : l.handling .requests (.step now .takeRequest) = [] :=
        Intake.take_one_of_disconnected htake
      rw [hcheckOver rfl rfl rfl, hhandling, List.map_nil, List.append_nil]

/-- Each request that the loop handles is decided, and no other. -/
theorem replies_happen (hl : Orderly l) (hhappen : l.happen h = some l') :
    l'.replies = l.replies ++ (l.handling .requests h).map fun socket => l.decision socket := by
  have hdeaf : ∀ {socket : Nat}, l.requests.queue.isListening = false →
      ¬ Exhausted .requests l → (l.reply socket none).replies = l.replies := by
    intro socket hdeaf hleft
    have hlistening := hl.isListening_of_not_exhausted (s := .requests) nofun hleft
    exact absurd hlistening (Bool.eq_false_iff.mp hdeaf)
  cases h with
  | step now a =>
      rcases step_cases hhappen with ⟨o, st, _, rfl, -, -, rfl⟩ | ⟨hready, hturn⟩ | haround
      · cases o <;> exact (List.append_nil _).symm
      · exact hl.replies_turn hready hturn
      · have hhandling : l.handling .requests (.step now a) = [] := by cases haround <;> rfl
        rw [hhandling, List.map_nil, List.append_nil]
        cases haround with
        | requestRefused hsenders hbring =>
            exact hdeaf (Intake.isListening_of_refused hbring) fun hleft => hsenders hleft.senders
        | requestDismissed _ hdismiss =>
            obtain ⟨b, hline⟩ := Intake.exists_of_dismiss hdismiss
            refine hdeaf (Intake.isListening_of_dismiss hdismiss) fun hleft => ?_
            exact List.cons_ne_nil _ _ (hline.symm.trans hleft.line)
        | bring => rw [(bringAsk_same _ _).2.1]
        | callRefused | call | serveEvent | serveCommand | request | requestLetIn | serveMessage
        | addEventSender | dropEventSender | dropCommandSender | dropRequestSender | stop => rfl
  | takeInbox | dropInbox | stopClient | bring | leave | dropMessageSender | note =>
      cases hhappen
      exact (List.append_nil _).symm

theorem outstanding (hl : Orderly l) (hpolls : l.PollsNothing) : l.outstanding = [] := by
  have hevents := hl.closed .events (hpolls .events nofun)
  have hcommands := hl.closed .commands (hpolls .commands nofun)
  have hbegun : l.begun = [] := by
    refine List.eq_nil_iff_forall_not_mem.mpr fun x hx => ?_
    have hevent := List.any_eq_false.mp hevents.begun x hx
    have hcommand := List.any_eq_false.mp hcommands.begun x hx
    simp only [Source.isFor, Bool.not_eq_true, Bool.not_eq_false'] at hevent hcommand
    exact Bool.false_ne_true (hevent.symm.trans hcommand)
  have hevents : l.events.line = [] := hevents.line
  have hcommands : l.commands.line = [] := hcommands.line
  rw [EventLoop.outstanding, hbegun, Intake.waiting, hevents, Intake.waiting, hcommands, hl.served]
  rfl

/-- As long as the loop is not told to stop, what an intake has accepted is what has been
handled and what still waits, and each request that has been handled is decided. -/
theorem run {settings : Settings} {start : EventLoop} {hs : List Happening}
    (hcreate : create settings = .ok start) (hrun : start.run hs = some l)
    (hgoing : ∀ now, .step now .stop ∉ hs) :
    Orderly l ∧
      (∀ s, s ≠ .messages → (arrivals s hs start).map (·.2) =
        handled s hs start ++ l.queued s) ∧
      l.replies = decisions settings.clientQueue (handled .requests hs start) := by
  have hcapacity : start.registry.capacity = settings.clientQueue := by rw [eq_of_create hcreate]
  revert hgoing
  refine Steps.run_induction (P := fun hs l => (∀ now, .step now .stop ∉ hs) → Orderly l ∧
    (∀ s, s ≠ .messages → (arrivals s hs start).map (·.2) =
      handled s hs start ++ l.queued s) ∧
    l.replies = decisions settings.clientQueue (handled .requests hs start)) ?_ ?_ hrun
  · intro _
    refine ⟨of_create hcreate, fun s _ => (queued_of_create hcreate).symm, ?_⟩
    rw [eq_of_create hcreate]
    rfl
  · intro hs h l l' hrun ih hhappen hgoing
    obtain ⟨hl, harrivals, hreplies⟩ :=
      ih fun now hmem => hgoing now (List.mem_append_left _ hmem)
    have hstop : ∀ now, h ≠ .step now .stop := by
      rintro now rfl
      exact hgoing now (List.mem_append_right _ List.mem_cons_self)
    have hhandled : ∀ s, handled s (hs ++ [h]) start = handled s hs start ++ l.handling s h :=
      fun s => Steps.seen_concat hrun hhappen
    refine ⟨hl.happen hstop hhappen, fun s hs => ?_, ?_⟩
    · have hconserves := hl.conserves hs hhappen
      rw [arrivals, Steps.seen_concat hrun hhappen, List.map_append, hhandled, List.append_assoc,
        ← hconserves, ← List.append_assoc, ← harrivals s hs]
      rfl
    · obtain ⟨_, _, _, haccounts⟩ := exists_accounts hcreate hrun
      rw [← hcapacity, ← capacity_run hrun] at hreplies ⊢
      rw [hl.replies_happen hhappen, hhandled, decisions_append_handling hreplies haccounts.replies]

/-- Whether the loop polls one of its intakes, from this instant on, or gives up a line for
which the chat session takes too long. -/
def IsOwn (now : Nat) (h : Happening) : Prop := ∃ s, isServing s now h = true

theorem ne_stop_of_isOwn (hown : IsOwn now h) (t : Nat) : h ≠ .step t .stop := by
  rintro rfl
  obtain ⟨s, hserving⟩ := hown
  cases s <;> simp [isServing, Source.poll] at hserving

theorem keeps (hl : Orderly l) (hleft : ∀ s, s ≠ .messages → Exhausted s l)
    (hreaches : Steps.Reaches EventLoop.happen (IsOwn now) l l') :
    Orderly l' ∧ ∀ s, s ≠ .messages → Exhausted s l' := by
  refine hreaches.keeps (P := fun l => Orderly l ∧ ∀ s, s ≠ .messages → Exhausted s l)
    ⟨hl, hleft⟩ ?_
  rintro h l l' hown hhappen ⟨hl, hleft⟩
  exact ⟨hl.happen (ne_stop_of_isOwn hown) hhappen, fun s hs => (hleft s hs).happen hs hhappen⟩

theorem close_all (ss : List Source) (hl : Orderly l) (hready : l.phase = .ready)
    (hleft : ∀ s, s ≠ .messages → Exhausted s l)
    (hss : ∀ s ∈ ss, s ≠ .messages) (now : Nat) :
    ∃ l', Steps.Reaches EventLoop.happen (IsOwn now) l l' ∧
      (l'.phase = .exited ∨ ∀ s ∈ ss, l'.isOpen s = false) := by
  induction ss generalizing l with
  | nil => exact ⟨l, .refl, .inr nofun⟩
  | cons s ss ih =>
      obtain ⟨hs, hss⟩ := List.forall_mem_cons.mp hss
      have hstays : ∀ {l l'}, l.isOpen s = false →
          Steps.Reaches EventLoop.happen (IsOwn now) l l' → l'.isOpen s = false :=
        fun hclosed ⟨_, _, hrun⟩ => isOpen_run hclosed hrun
      cases hopen : l.isOpen s with
      | false =>
          obtain ⟨l', hreaches, hclosed⟩ := ih hl hready hleft hss
          refine ⟨l', hreaches, hclosed.imp_right fun hclosed => ?_⟩
          exact List.forall_mem_cons.mpr ⟨hstays hopen hreaches, hclosed⟩
      | true =>
          obtain ⟨l₁, hpoll, hclosed₁, hphase₁⟩ :=
            poll_of_exhausted hready hs (hleft s hs) hopen now
          have hpolls : Steps.Reaches EventLoop.happen (IsOwn now) l l₁ :=
            .single (a := Happening.step now s.poll) ⟨s, by simp [isServing]⟩ hpoll
          obtain ⟨hl₁, hleft₁⟩ := hl.keeps hleft hpolls
          rcases hphase₁ with hready₁ | hexited
          · obtain ⟨l', hreaches, hclosed⟩ := ih hl₁ hready₁ hleft₁ hss
            refine ⟨l', hpolls.trans hreaches, hclosed.imp_right fun hclosed => ?_⟩
            exact List.forall_mem_cons.mpr ⟨hstays hclosed₁ hreaches, hclosed⟩
          · exact ⟨l₁, hpolls, .inl hexited⟩

/-- A loop at whose three intakes nothing is left, and to which nothing can come, can end by
itself from any instant on. -/
theorem ends (hl : Orderly l) (hleft : ∀ s, s ≠ .messages → Exhausted s l) (now : Nat) :
    ∃ l', Steps.Reaches EventLoop.happen (IsOwn now) l l' ∧ l'.phase = .exited := by
  by_cases hexited : l.phase = .exited
  · exact ⟨l, .refl, hexited⟩
  · obtain ⟨more, l₁, hmore, hrun, hready, -, -⟩ :=
      serve_waiting (s := .messages) hexited rfl now
    have hserves : Steps.Reaches EventLoop.happen (IsOwn now) l l₁ :=
      ⟨more, fun h hh => ⟨.messages, List.all_eq_true.mp hmore h hh⟩, hrun⟩
    obtain ⟨hl₁, hleft₁⟩ := hl.keeps hleft hserves
    obtain ⟨l', hreaches, hover⟩ := close_all [.events, .commands, .requests] hl₁ hready
      hleft₁ (by decide) now
    refine ⟨l', hserves.trans hreaches, hover.elim id fun hclosed => ?_⟩
    refine (hl₁.keeps hleft₁ hreaches).1.exited.mpr fun s hs => hclosed s ?_
    cases s with
    | events | commands | requests => decide
    | messages => exact absurd rfl hs

end Orderly

/-- A loop that is never told to stop ends when it has found its three intakes closed, and not
before. At any time its clients have heard the accepted events that do not wait any more, it has
written of those commands, and for each of those requests there is a client, unless the queues of
clients cannot be created. The loop finds an intake closed only once nothing waits there and
nothing can come, and does not poll it again. All that waits at an intake that it polls can be
handled, and once nothing can come any more it can end by itself, both from any instant on. -/
theorem ends_without_loss {settings : Settings} {start : EventLoop} {hs : List Happening}
    (hcreate : create settings = .ok start) (hrun : start.run hs = some l)
    (hgoing : ∀ now, .step now .stop ∉ hs) :
    (l.phase = .exited ↔ ∀ s, s ≠ .messages → l.isOpen s = false) ∧
      (∃ sent, (arrivals .events hs start).map (·.2) = sent ++ l.queued .events ∧
        l.counter = Int64.ofNat sent.length ∧ Broadcasts (numbered sent) hs start) ∧
      (arrivals .commands hs start).map (·.2.text) =
        reports hs start ++ (l.queued .commands).map (·.text) ∧
      (∃ sockets, (arrivals .requests hs start).map (·.2) = sockets ++ l.queued .requests ∧
        l.replies = decisions settings.clientQueue sockets ∧
        l.registry.clients.length =
          (if IsCapacity settings.clientQueue then sockets.length else 0) ∧
        ∀ h l' (k : Nat) (c : Client), l.happen h = some l' → l.registry.clients[k]? = none →
          l'.registry.clients[k]? = some c →
          c = { id := UInt64.ofNat k, inbox := { capacity := settings.clientQueue } }) ∧
      (l.phase = .exited → ∀ ticket, ((arrivals .events hs start).map (·.1)).count ticket +
        ((arrivals .commands hs start).map (·.1)).count ticket = (called hs).count ticket) ∧
      (∀ s, l.isOpen s = false → (l.intake s).queue.senders = 0 ∧ (l.intake s).line = [] ∧
        l.queued s = [] ∧ ∀ more l', l.run more = some l' →
          l'.isOpen s = false ∧ ∀ now, l'.step now s.poll = none) ∧
      (l.phase ≠ .exited → ∀ s, l.isOpen s = true → ∀ now, ∃ more l',
        more.all (isServing s now) = true ∧ l.run more = some l' ∧ l'.phase = .ready ∧
          l'.queued s = [] ∧ (∀ s', arrivals s' more l = []) ∧
          (s = .messages → l'.handed = l.handed ++ (l.queued .messages).map
            fun m : Message => (⟨settings.chatRoom, (m.get? "body").getD ""⟩ : Stanza))) ∧
      ((∀ s, s ≠ .messages → Exhausted s l) → ∀ now, ∃ more l',
        (∀ h ∈ more, ∃ s, isServing s now h = true) ∧ l.run more = some l' ∧
          l'.phase = .exited) := by
  have hstart := eq_of_create hcreate
  obtain ⟨hl, harrivals, hreplies⟩ := Orderly.run hcreate hrun hgoing
  refine ⟨hl.exited, ?_, ?_, ?_, ?_, ?_, ?_, ?_⟩
  · refine ⟨handled .events hs start, harrivals .events nofun, ?_, run_broadcasts hcreate hrun⟩
    exact (run_delivered (by rw [hstart]) hrun 0).1
  · rw [reports_eq, ← List.map_append, ← harrivals .commands nofun, List.map_map]
    rfl
  · refine ⟨handled .requests hs start, harrivals .requests nofun, hreplies, ?_, ?_⟩
    · obtain ⟨_, _, _, haccounts⟩ := exists_accounts hcreate hrun
      have hadmitted := congrArg List.length haccounts.replies
      rw [hreplies, admitted_decisions, List.length_range] at hadmitted
      rw [← hadmitted]
      split
      · rw [List.length_range]
      · rfl
    · exact fun h l' k c => eq_of_registered hcreate hrun
  · intro hexited ticket
    have hsettles := run_settles (by rw [hstart]; rfl) hrun ticket
    rwa [hl.outstanding (hl.exited.mp hexited)] at hsettles
  · intro s hclosed
    have hleft := hl.closed s hclosed
    refine ⟨hleft.senders, hleft.line, hleft.items, fun more l' hmore => ?_⟩
    have hclosed' := isOpen_run hclosed hmore
    exact ⟨hclosed', poll_of_closed hclosed'⟩
  · intro hphase s hopen now
    obtain ⟨more, l', hmore, hmoreRun, hready, hqueued, hhandled⟩ :=
      serve_waiting hphase hopen now
    refine ⟨more, l', hmore, hmoreRun, hready, hqueued, arrivals_of_isServing hmore, ?_⟩
    rintro rfl
    rw [(run_forwards hmoreRun).2.1, hhandled, (run_forwards hrun).1, hstart]
    rfl
  · intro hleft now
    obtain ⟨l', ⟨more, hmore, hmoreRun⟩, hexited⟩ := hl.ends hleft now
    exact ⟨more, l', hmore, hmoreRun, hexited⟩

/-- The loop breaks down over a client's message when it has found the intake for requests
closed and one of two events still waits in line, and once more before it ends. -/
theorem ends_without_loss_over_breakdowns :
    let e := Event.ofKind "message"
    let c := Command.mk "status"
    let m : Message := ⟨"message", none, 0⟩
    let settings := { Settings.default with inboxQueue := 1 }
    let before : List Happening := [.step 0 (.request 0), .step 0 .takeRequest,
      .step 0 .dropRequestSender, .step 0 (.call 0 (.event e)), .step 0 (.bring 0),
      .step 0 (.call 1 (.event e)), .step 0 (.bring 1), .step 0 .dropEventSender,
      .step 0 .takeRequest, .bring 0 m, .step 0 .takeMessage,
      .step 1 (.chatEnds (.brokeDown .noReason))]
    let after : List Happening := [.step 1 .takeEvent, .step 1 .serveEvent,
      .step 1 (.call 2 (.command c)), .step 1 (.bring 2), .step 1 .dropCommandSender,
      .step 1 .takeCommand, .step 1 .takeCommand, .bring 0 m, .step 1 .takeMessage,
      .step 2 (.chatEnds (.brokeDown .noReason)), .step 2 .takeEvent, .step 2 .takeEvent]
    ∃ start b l, create settings = .ok start ∧ start.run before = some b ∧
      start.run (before ++ after) = some l ∧ (∀ now, .step now .stop ∉ before ++ after) ∧
      b.isOpen .requests = false ∧ (∀ now, b.step now .takeRequest = none) ∧
      (∃ more b', b.run more = some b' ∧ b'.queued .events = []) ∧
      l.phase = .exited ∧ (∀ s, s ≠ .messages → l.isOpen s = false) ∧
      (∃ n, delivered 0 after b = (numbered [e, e]).take n ∧ (n = 2 ∨ Misses 0 n after b)) ∧
      delivered 0 after b = [⟨"message", none, 0⟩, ⟨"message", none, 1⟩] ∧
      reports (before ++ after) start = ["status"] ∧ l.replies = [(0, some 0)] := by
  intro e c m settings before after
  obtain ⟨start, hcreate, hreached, hended, hevents, harrived, hcommands, hrequests, hheard⟩ :
      ∃ start, create settings = .ok start ∧
        ((start.run before).any fun b => b.phase ≠ .exited ∧ b.isOpen .requests = false ∧
          b.isOpen .events = true ∧ b.queued .events = [e] ∧
          b.registry.clients[0]?.any (·.registered) = true) = true ∧
        ((start.run (before ++ after)).any fun l => l.phase = .exited) = true ∧
        (arrivals .events (before ++ after) start).map (·.2) = [e, e] ∧
        (arrivals .events before start).length = 1 ∧
        (arrivals .commands (before ++ after) start).map (·.2.text) = ["status"] ∧
        (arrivals .requests (before ++ after) start).map (·.2) = [0] ∧
        ((start.run before).elim [] (delivered 0 after)) =
          [⟨"message", none, 0⟩, ⟨"message", none, 1⟩] :=
    ⟨_, rfl, by decide +kernel, by decide +kernel, by decide +kernel, by decide +kernel,
      by decide +kernel, by decide +kernel, by decide +kernel⟩
  obtain ⟨b, hrun, hreached⟩ := (Option.any_eq_true _ _).mp hreached
  obtain ⟨hphase, hclosed, hopen, hqueued, hclient⟩ := of_decide_eq_true hreached
  obtain ⟨client, hclient, hregistered⟩ := (Option.any_eq_true _ _).mp hclient
  obtain ⟨l, hrun', hended⟩ := (Option.any_eq_true _ _).mp hended
  have hexited := of_decide_eq_true hended
  have hgoing : ∀ now, .step now .stop ∉ before ++ after := by simp [before, after]
  have hgoing' : ∀ now, .step now .stop ∉ before := fun now hmem =>
    hgoing now (List.mem_append_left _ hmem)
  obtain ⟨-, -, -, -, -, hcloses, hserves, -⟩ := ends_without_loss hcreate hrun hgoing'
  obtain ⟨hpolls, ⟨sent, hsent, -, hbroadcasts⟩, hreports,
    ⟨sockets, hsockets, hreplies, -⟩, -, hcloses',
    -⟩ := ends_without_loss hcreate hrun' hgoing
  obtain ⟨-, -, -, hstays⟩ := hcloses .requests hclosed
  obtain ⟨more, b', -, hmore, -, hserved, -⟩ := hserves hphase .events hopen 1
  have hleft : ∀ s, s ≠ .messages → l.queued s = [] := fun s hs =>
    (hcloses' s (hpolls.mp hexited s hs)).2.2.1
  rw [hevents, hleft .events nofun, List.append_nil] at hsent
  rw [hcommands, hleft .commands nofun, List.map_nil, List.append_nil] at hreports
  rw [hrequests, hleft .requests nofun, List.append_nil] at hsockets
  rw [hrun, Option.elim_some] at hheard
  obtain ⟨a, n, ha, -, -, hdelivered, hend⟩ :=
    hbroadcasts before after b rfl hrun 0 client hclient hregistered
  obtain rfl : a = 0 := by
    rw [harrived, hqueued, List.length_singleton] at ha
    omega
  rw [← hsent, List.drop_zero] at hdelivered
  rw [← hsent, length_numbered] at hend
  rw [← hsockets] at hreplies
  exact ⟨start, b, l, hcreate, hrun, hrun', hgoing, hclosed, (hstays [] b rfl).2,
    ⟨more, b', hmore, hserved⟩, hexited, hpolls.mp hexited, ⟨n, hdelivered, hend⟩, hheard,
    hreports.symm, hreplies⟩

end HookRelay.EventLoop
