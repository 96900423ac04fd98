import HookRelay.Proofs.EventLoop.Conservation
/-!
Why an event loop starts again. As long as the queues of clients can be created, it breaks down
over lines that it has handed to the chat session only, and it turns no request down before it
has ended.
-/

namespace HookRelay

/-- The reason for which a task has been started again. -/
def LogEntry.restart? : LogEntry → Option String
  | .restarting _ reason => some reason
  | _ => none

/-- The fault at which the loop broke down over a line. -/
def Delivery.fault? (d : Delivery) : Option String :=
  match d.outcome with
  | .brokeDown f => some f.text
  | _ => none

/-- The capacities with which a queue can be created. -/
def IsCapacity (n : Nat) : Prop := 0 < n ∧ n ≤ maxCapacity

instance (n : Nat) : Decidable (IsCapacity n) := inferInstanceAs (Decidable (_ ∧ _))

theorem Mailbox.create_eq_ok_iff {α : Type} {n : Nat} {m : Mailbox α} :
    create n = .ok m ↔ IsCapacity n ∧ m = { capacity := n } := by
  unfold create
  split
  · next hzero =>
    constructor
    · exact nofun
    · rintro ⟨⟨hpos, -⟩, -⟩
      omega
  · split
    · next hlarge =>
      constructor
      · exact nofun
      · rintro ⟨⟨-, hle⟩, -⟩
        omega
    · next hpos hle =>
      constructor
      · rintro ⟨⟩
        exact ⟨⟨Nat.pos_of_ne_zero hpos, Nat.not_lt.mp hle⟩, rfl⟩
      · rintro ⟨-, rfl⟩
        rfl

theorem Mailbox.exists_create_iff {α : Type} {n : Nat} :
    (∃ m : Mailbox α, create n = .ok m) ↔ IsCapacity n := by
  constructor
  · rintro ⟨m, hm⟩
    exact (create_eq_ok_iff.mp hm).1
  · intro hn
    exact ⟨_, create_eq_ok_iff.mpr ⟨hn, rfl⟩⟩

theorem Intake.exists_create_iff {α : Type} {n : Nat} :
    (∃ i : Intake α, create n = .ok i) ↔ IsCapacity n := by
  constructor
  · rintro ⟨i, hi⟩
    unfold create at hi
    cases hqueue : (Mailbox.create n : Except CapacityError (Mailbox α)) with
    | error e =>
        rw [hqueue] at hi
        cases hi
    | ok queue => exact Mailbox.exists_create_iff.mp ⟨queue, hqueue⟩
  · intro hn
    obtain ⟨queue, hqueue⟩ := Mailbox.exists_create_iff.mpr hn
    refine ⟨{ queue }, ?_⟩
    rw [create, hqueue]
    rfl

theorem EventLoop.exists_create_iff {s : Settings} :
    (∃ l, create s = .ok l) ↔ IsCapacity s.inboxQueue ∧ IsCapacity s.controlQueue ∧
      IsCapacity s.registrationQueue ∧ IsCapacity s.outboxQueue := by
  constructor
  · rintro ⟨l, h⟩
    obtain ⟨events, hevents, h⟩ := exists_of_bind_eq_ok h
    obtain ⟨commands, hcommands, h⟩ := exists_of_bind_eq_ok h
    obtain ⟨requests, hrequests, h⟩ := exists_of_bind_eq_ok h
    obtain ⟨outbox, houtbox, -⟩ := exists_of_bind_eq_ok h
    exact ⟨Intake.exists_create_iff.mp ⟨_, hevents⟩,
      Intake.exists_create_iff.mp ⟨_, hcommands⟩,
      Intake.exists_create_iff.mp ⟨_, hrequests⟩,
      Intake.exists_create_iff.mp ⟨_, houtbox⟩⟩
  · rintro ⟨hinbox, hcontrol, hregistration, houtbox⟩
    obtain ⟨events, hevents⟩ := Intake.exists_create_iff (α := Event).mpr hinbox
    obtain ⟨commands, hcommands⟩ := Intake.exists_create_iff (α := Command).mpr hcontrol
    obtain ⟨requests, hrequests⟩ := Intake.exists_create_iff (α := Nat).mpr hregistration
    obtain ⟨outbox, houtbox⟩ := Intake.exists_create_iff (α := Message).mpr houtbox
    rw [create, hevents, hcommands, hrequests, houtbox]
    exact ⟨_, rfl⟩

theorem Client.restart?_of_mem_offer {m : Message} {c : Client} {e : LogEntry}
    (he : e ∈ (c.offer m).2) : e.restart? = none := by
  unfold Client.offer at he
  split at he
  · cases he
  · split at he
    · cases he
    · rw [List.mem_singleton.mp he]
      rfl
    · rw [List.mem_singleton.mp he]
      rfl

namespace Registry

theorem restart?_of_mem_broadcast {r : Registry} {m : Message} {e : LogEntry}
    (he : e ∈ (r.broadcast m).2.2) : e.restart? = none := by
  obtain ⟨x, hx, he⟩ := List.mem_flatMap.mp he
  obtain ⟨c, -, rfl⟩ := List.mem_map.mp hx
  exact Client.restart?_of_mem_offer he

theorem register_eq_of_isCapacity {r : Registry} (hcapacity : IsCapacity r.capacity) :
    ∃ c, r.register =
      (.ok r.nextId, { r with nextId := r.nextId + 1, clients := r.clients ++ [c] },
        [.clientRegistered r.nextId
          ({ r with nextId := r.nextId + 1, clients := r.clients ++ [c] } : Registry).size]) := by
  have hcreate : (Mailbox.create r.capacity : Except CapacityError (Mailbox Message)) =
      .ok { capacity := r.capacity } := Mailbox.create_eq_ok_iff.mpr ⟨hcapacity, rfl⟩
  refine ⟨{ id := r.nextId, inbox := { capacity := r.capacity } }, ?_⟩
  rw [register, hcreate]

theorem register_eq_of_not_isCapacity {r : Registry} (hcapacity : ¬ IsCapacity r.capacity) :
    ∃ e, r.register = (.error e, { r with nextId := r.nextId + 1 }, []) := by
  rcases hcreate : (Mailbox.create r.capacity : Except CapacityError (Mailbox Message)) with e | m
  · refine ⟨e, ?_⟩
    rw [register, hcreate]
  · exact absurd (Mailbox.exists_create_iff.mp ⟨m, hcreate⟩) hcapacity

theorem register_eq_ok_iff {r : Registry} :
    r.register.1 = .ok r.nextId ↔ IsCapacity r.capacity := by
  by_cases hcapacity : IsCapacity r.capacity
  · obtain ⟨c, hregister⟩ := register_eq_of_isCapacity hcapacity
    rw [hregister]
    exact ⟨fun _ => hcapacity, fun _ => rfl⟩
  · obtain ⟨e, hregister⟩ := register_eq_of_not_isCapacity hcapacity
    rw [hregister]
    exact ⟨nofun, fun h => absurd h hcapacity⟩

end Registry

namespace EventLoop

/-- The reasons for which the loop has been started again. -/
def restarts (l : EventLoop) : List String := l.log.filterMap LogEntry.restart?

/-- The faults at which the loop broke down over lines. -/
def breakdowns (l : EventLoop) : List String := l.deliveries.filterMap Delivery.fault?

/-- The loop has been started again only after it broke down over a line, and has turned
requests down only when it had ended. -/
structure Steady (l : EventLoop) : Prop where
  restarts : l.restarts = l.breakdowns
  refused : ∀ socket, (socket, none) ∈ l.replies → l.phase = .exited
  listening : l.requests.queue.isListening = false → l.phase = .exited

variable {l l' : EventLoop} {a : Action} {now : Nat}

theorem restarts_write (entries : List LogEntry) :
    (l.write entries).restarts = l.restarts ++ entries.filterMap LogEntry.restart? :=
  List.filterMap_append

theorem restarts_write_of_none {entries : List LogEntry}
    (hentries : ∀ e ∈ entries, e.restart? = none) :
    (l.write entries).restarts = l.restarts := by
  rw [restarts_write, List.filterMap_eq_nil_iff.mpr hentries, List.append_nil]

namespace Steady

theorem create {settings : Settings} (hcreate : create settings = .ok l) : Steady l := by
  rw [eq_of_create hcreate]
  exact ⟨rfl, nofun, nofun⟩

theorem of_eq (h : Steady l) (hrestarts : l'.restarts = l.restarts)
    (hdeliveries : l'.deliveries = l.deliveries)
    (hphase : l.phase = .exited → l'.phase = .exited)
    (hreplies : ∀ socket, (socket, none) ∈ l'.replies →
      (socket, none) ∈ l.replies ∨ l.phase = .exited)
    (hlistening : l'.requests.queue.isListening = l.requests.queue.isListening) : Steady l' where
  restarts := by rw [hrestarts, h.restarts, breakdowns, breakdowns, hdeliveries]
  refused socket hsocket := hphase ((hreplies socket hsocket).elim (h.refused socket) id)
  listening hclosed := hphase (h.listening (hlistening ▸ hclosed))

theorem exit (h : Steady l) : Steady l.exit where
  restarts := by
    change ({ l with log := l.log ++ [.loopExited l.counter] } : EventLoop).restarts = l.breakdowns
    rw [← h.restarts]
    exact (restarts_write [.loopExited l.counter]).trans (List.append_nil _)
  refused _ _ := rfl
  listening _ := rfl

theorem checkOver (h : Steady l) : Steady l.checkOver := by
  unfold EventLoop.checkOver
  split
  · exact h
  · exact h.exit

theorem dispatch (h : Steady l) (e : Event) : Steady (l.dispatch e) := by
  refine h.of_eq (restarts_write_of_none ?_) rfl id (fun _ => .inl) rfl
  intro entry hentry
  rcases List.mem_append.mp hentry with hentry | hentry
  · exact Registry.restart?_of_mem_broadcast hentry
  · split at hentry
    · cases hentry
    · rw [List.mem_singleton.mp hentry]
      rfl

theorem register (h : Steady l) (hcapacity : IsCapacity l.registry.capacity) (socket : Nat) :
    Steady (l.register socket) := by
  obtain ⟨c, hregister⟩ := Registry.register_eq_of_isCapacity hcapacity
  rw [EventLoop.register, hregister]
  refine h.of_eq ?_ rfl id ?_ rfl
  · exact (restarts_write [_]).trans (List.append_nil _)
  · intro k hk
    rcases List.mem_append.mp hk with hk | hk
    · exact .inl hk
    · cases List.mem_singleton.mp hk

theorem finishChat {s : Stanza} {since : Nat} (h : Steady l)
    (hphase : l.phase = .forwarding s since) (o : ChatOutcome) : Steady (l.finishChat s o) := by
  have hgoing : l.phase ≠ .exited := by simp [hphase]
  have hnone : ∀ socket, (socket, none) ∉ l.replies :=
    fun socket hsocket => hgoing (h.refused socket hsocket)
  have hopen : l.requests.queue.isListening ≠ false :=
    fun hclosed => hgoing (h.listening hclosed)
  have hbreakdowns : (l.deliveries ++ [Delivery.mk s o]).filterMap Delivery.fault? =
      l.restarts ++ [Delivery.mk s o].filterMap Delivery.fault? := by
    rw [List.filterMap_append, h.restarts, breakdowns]
  constructor
  · cases o with
    | sent | failed | late | brokeDown =>
        refine (restarts_write _).trans ?_
        exact hbreakdowns.symm
  · intro socket hsocket
    cases o with
    | sent | failed | late | brokeDown => exact absurd hsocket (hnone socket)
  · intro hclosed
    cases o with
    | sent | failed | late | brokeDown => exact absurd hclosed hopen

theorem turn (h : Steady l) (hready : l.phase = .ready)
    (hcapacity : IsCapacity l.registry.capacity) (hturn : Turn now l a l') : Steady l' := by
  have hgoing : l.phase ≠ .exited := by simp [hready]
  cases hturn with
  | quits => exact h.exit
  | @event e events =>
      exact dispatch (l := { l with events }) (h.of_eq rfl rfl id (fun _ => .inl) rfl) e
  | noEvent =>
      exact checkOver (l := { l with eventsOpen := false })
        (h.of_eq rfl rfl id (fun _ => .inl) rfl)
  | noCommand =>
      exact checkOver (l := { l with commandsOpen := false })
        (h.of_eq rfl rfl id (fun _ => .inl) rfl)
  | noRequest =>
      exact checkOver (l := { l with requestsOpen := false })
        (h.of_eq rfl rfl id (fun _ => .inl) rfl)
  | command =>
      exact h.of_eq ((restarts_write _).trans (List.append_nil _)) rfl id (fun _ => .inl) rfl
  | @request socket requests _ htake =>
      have hlistening := (Intake.sameEnds_take htake).isListening
      exact register (l := { l with requests })
        (h.of_eq rfl rfl id (fun _ => .inl) hlistening) hcapacity socket
  | message =>
      exact h.of_eq rfl rfl (fun hexited => absurd hexited hgoing) (fun _ => .inl) rfl

theorem bringAsk (h : Steady l) (ticket : Nat) (ask : Ask) :
    Steady (bringAsk ticket ask l) := by
  cases ask <;>
    (unfold EventLoop.bringAsk settleCall
     dsimp only
     split <;> exact h.of_eq rfl rfl id (fun _ => .inl) rfl)

theorem around (h : Steady l) (haround : Around l a l') : Steady l' := by
  have hrefuses : ∀ {socket : Nat}, l.requests.queue.isListening = false →
      ∀ k, (k, none) ∈ l.replies ++ [(socket, none)] →
        (k, none) ∈ l.replies ∨ l.phase = .exited :=
    fun hclosed _ _ => .inr (h.listening hclosed)
  cases haround with
  | @bring ticket _ ask =>
      exact bringAsk (l := { l with begun := l.begun.eraseP (·.1 == ticket) })
        (h.of_eq rfl rfl id (fun _ => .inl) rfl) ticket ask
  | requestRefused _ hbring =>
      exact h.of_eq rfl rfl id (hrefuses (Intake.isListening_of_refused hbring)) rfl
  | request _ _ hbring =>
      exact h.of_eq rfl rfl id (fun _ => .inl) (Intake.sameEnds_of_bring hbring).isListening
  | requestLetIn hletIn =>
      exact h.of_eq rfl rfl id (fun _ => .inl) (Intake.sameEnds_letIn hletIn).isListening
  | requestDismissed _ hdismiss =>
      refine h.of_eq rfl rfl id (hrefuses (Intake.isListening_of_dismiss hdismiss)) ?_
      exact congrArg Mailbox.isListening (Intake.queue_of_dismiss hdismiss)
  | callRefused | call | serveEvent | serveCommand | serveMessage | addEventSender
  | dropEventSender | dropCommandSender | dropRequestSender | stop =>
      exact h.of_eq rfl rfl id (fun _ => .inl) rfl

theorem step (h : Steady l) (hcapacity : IsCapacity l.registry.capacity)
    (hstep : l.step now a = some l') : Steady l' := by
  rcases step_cases hstep with
    ⟨o, s, since, rfl, hphase, -, rfl⟩ | ⟨hready, hturn⟩ | haround
  · exact h.finishChat hphase o
  · exact h.turn hready hcapacity hturn
  · exact h.around haround

end Steady

theorem clients_happen {h : Happening} (hcapacity : ¬ IsCapacity l.registry.capacity)
    (hnone : l.registry.clients = []) (hhappen : l.happen h = some l') :
    l'.registry.clients = [] := by
  have hmap : ∀ f : Client → Client, l.registry.clients.map f = [] := by
    intro f
    rw [hnone, List.map_nil]
  have hmodify : ∀ k f, (l.modifyClient k f).registry.clients = [] := by
    intro k f
    change l.registry.clients.modify k f = []
    rw [hnone, List.modify_nil]
  have hcheckOver : ∀ {l : EventLoop}, l.registry.clients = [] →
      l.checkOver.registry.clients = [] := by
    intro l hnone
    unfold checkOver
    split
    · exact hnone
    · change l.registry.clients.map _ = []
      rw [hnone, List.map_nil]
  cases h with
  | step now a =>
      rcases step_cases hhappen with ⟨o, s, _, rfl, -, -, rfl⟩ | ⟨-, hturn⟩ | haround
      · cases o <;> exact hnone
      · cases hturn with
        | quits => exact hmap _
        | event =>
            change (l.registry.clients.map _).map _ = []
            rw [hnone]
            rfl
        | noEvent | noCommand | noRequest => exact hcheckOver hnone
        | @request socket requests =>
            obtain ⟨e, hregister⟩ := Registry.register_eq_of_not_isCapacity hcapacity
            rw [register, hregister]
            exact hnone
        | command | message => exact hnone
      · rw [haround.keeps.clients, hnone]
  | takeInbox | dropInbox | stopClient =>
      cases hhappen
      exact hmodify _ _
  | bring | leave | dropMessageSender | note =>
      cases hhappen
      exact hnone

theorem clients_run {hs : List Happening} {start : EventLoop}
    (hcapacity : ¬ IsCapacity start.registry.capacity) (hnone : start.registry.clients = [])
    (hrun : start.run hs = some l) : l.registry.clients = [] := by
  refine Steps.run_induction (P := fun _ l =>
    ¬ IsCapacity l.registry.capacity ∧
    l.registry.clients = []) ⟨hcapacity, hnone⟩ ?_ hrun |>.2
  rintro hs h l l' - ⟨hcapacity, hnone⟩ hhappen
  exact ⟨(happen_retains hhappen).capacity ▸ hcapacity,
    clients_happen hcapacity hnone hhappen⟩

end EventLoop

end HookRelay
