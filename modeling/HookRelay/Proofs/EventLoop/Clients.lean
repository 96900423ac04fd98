import HookRelay.Proofs.Connection.Turns
import HookRelay.Proofs.Connection.Surroundings
import HookRelay.Proofs.EventLoop.Surroundings
/-!
The event loop as the connection of one client sees it, and as it sees that connection.
Whatever happens to the loop is, at the end of the client, something that others do around
its connection; and whatever the connection does is something that happens to the loop.
-/

namespace HookRelay.EventLoop

/-- What the connection of a client shares with the loop. -/
def linkOf (socket : Socket) (c : Client) (l : EventLoop) : Link :=
  { socket, inbox := c.inbox, stopped := c.stopped, intake := l.outbox, log := l.log }

/-- What a client's connection has left of what is the client's own. -/
def share (x : Link) (c : Client) : Client := { c with inbox := x.inbox, stopped := x.stopped }

/-- The loop after the connection of a client has changed what it shares with it. -/
def withLink (client : Nat) (x : Link) (l : EventLoop) : EventLoop :=
  { l with registry := l.registry.modify client (share x), outbox := x.intake, log := x.log }

/-- Whether this may be the doing of the connection that serves a client and brings messages
with a ticket. -/
def Happening.IsBy (client ticket : Nat) : Happening → Prop
  | .takeInbox k | .dropInbox k | .stopClient k => k = client
  | .bring t _ | .leave t => t = ticket
  | .dropMessageSender | .note _ => True
  | .step .. => False

/-- Whether this is certainly not its doing alone. -/
def Happening.Spares (client ticket : Nat) : Happening → Prop
  | .takeInbox k | .dropInbox k | .stopClient k => k ≠ client
  | .bring t _ | .leave t => t ≠ ticket
  | .dropMessageSender | .note _ | .step .. => True

/-- Others can make this of what a connection shares with them. -/
def Undergoes (ticket : Nat) : Link → Link → Prop :=
  Steps.Reaches (Connection.outside ticket) fun _ => True

/-- The loop goes from one state to the other, and no connection has a part in that. -/
def GoesOn : EventLoop → EventLoop → Prop :=
  Steps.Reaches happen fun h => ∀ client ticket, h.Spares client ticket

/-- The client at a position is still there, and others have done to what its connection
shares what has happened to the loop. -/
def Appears (client ticket : Nat) (l l' : EventLoop) : Prop :=
  ∀ c, l.registry.clients[client]? = some c → ∃ c', l'.registry.clients[client]? = some c' ∧
    ∀ socket, Undergoes ticket (l.linkOf socket c) (l'.linkOf socket c')

/-- The loop can see what a connection has made of what it shares. -/
def Shows (client ticket : Nat) (x y : Link) : Prop :=
  ∀ l : EventLoop, Steps.Reaches happen (Happening.IsBy client ticket) (l.withLink client x)
    (l.withLink client y)

section Appears

variable {client ticket now : Nat} {socket : Socket} {c : Client} {l l' : EventLoop}
  {a : Action} {h : Happening} {x y : Link}

theorem undergoes_of_outside {o : Connection.Around}
    (h : Connection.outside ticket o x = some y) : Undergoes ticket x y :=
  .single trivial h

theorem goesOn_step (h : l.step now a = some l') : GoesOn l l' :=
  .single (a := Happening.step now a) (fun _ _ => trivial) h

theorem goesOn_write (entries : List LogEntry) : GoesOn l (l.write entries) :=
  .single (a := Happening.note entries) (fun _ _ => trivial) rfl

theorem undergoes_offer (m : Message) :
    Undergoes ticket (l.linkOf socket c) (l.linkOf socket (c.offer m).1) := by
  have hleaves : Undergoes ticket (l.linkOf socket c) (l.linkOf socket c.leave) :=
    undergoes_of_outside (o := .closeQueue) rfl
  unfold Client.offer
  split
  · exact .refl
  · split
    · next inbox hoffer =>
      refine undergoes_of_outside (o := .queue m) ?_
      change some { l.linkOf socket c with inbox := (c.inbox.offer m).2 } = _
      rw [hoffer]
      rfl
    · exact hleaves
    · exact hleaves

theorem undergoes_shutDown :
    Undergoes ticket (l.linkOf socket c) (l.linkOf socket c.shutDown) := by
  unfold Client.shutDown
  split
  · exact (undergoes_of_outside (o := .closeQueue) rfl).trans
      (undergoes_of_outside (o := .stop) rfl)
  · exact .refl

theorem Appears.of_map (f : Client → Client)
    (hclients : l'.registry.clients = l.registry.clients.map f)
    (h : ∀ socket c, Undergoes ticket (l.linkOf socket c) (l'.linkOf socket (f c))) :
    Appears client ticket l l' := by
  intro c hc
  refine ⟨f c, ?_, fun socket => h socket c⟩
  rw [hclients, List.getElem?_map, hc]
  rfl

theorem Appears.of_clients (hclients : l'.registry.clients = l.registry.clients)
    (h : ∀ socket c, Undergoes ticket (l.linkOf socket c) (l'.linkOf socket c)) :
    Appears client ticket l l' :=
  .of_map id (by rw [hclients, List.map_id]) h

theorem exit_appears : Appears client ticket l l.exit :=
  .of_map Client.shutDown rfl fun _ _ =>
    (undergoes_shutDown.trans (undergoes_of_outside (o := .closeIntake) rfl)).trans
      (undergoes_of_outside (o := .note _) rfl)

theorem checkOver_appears : Appears client ticket l l.checkOver := by
  unfold checkOver
  split
  · exact .of_clients rfl fun _ _ => .refl
  · exact exit_appears

theorem dispatch_appears (e : Event) : Appears client ticket l (l.dispatch e) := by
  refine .of_map (fun c => (c.offer (.ofEvent e l.counter)).1) ?_ fun _ _ => ?_
  · change (l.registry.clients.map _).map _ = _
    rw [List.map_map]
    rfl
  · exact (undergoes_offer _).trans (undergoes_of_outside (o := .note _) rfl)

theorem register_appears (k : Nat) : Appears client ticket l (l.register k) := by
  unfold register Registry.register
  rcases (Mailbox.create l.registry.capacity : Except CapacityError (Mailbox Message))
    with e | inbox
  · exact .of_clients rfl fun _ _ => undergoes_of_outside (o := .note _) rfl
  · intro c hc
    refine ⟨c, ?_, fun socket => ?_⟩
    · exact (List.getElem?_append_left (List.getElem?_eq_some_iff.mp hc).1).trans hc
    · exact (undergoes_of_outside (o := .addSender) rfl).trans
        (undergoes_of_outside (o := .note _) rfl)

theorem Turn.appears (h : Turn now l a l') : Appears client ticket l l' := by
  cases h with
  | quits => exact exit_appears
  | event => exact fun c hc => dispatch_appears _ c hc
  | request => exact fun c hc => register_appears _ c hc
  | noEvent | noCommand | noRequest => exact fun c hc => checkOver_appears c hc
  | command => exact .of_clients rfl fun _ _ => undergoes_of_outside (o := .note _) rfl
  | message htake =>
      refine .of_clients rfl fun socket c => undergoes_of_outside (o := .take) ?_
      change some { l.linkOf socket c with intake := l.outbox.take.2 } = _
      rw [htake]
      rfl

theorem settleCall_appears (t : Nat) (entry : Entry) :
    Appears client ticket l (settleCall t entry l) := by
  cases entry <;> exact .of_clients rfl fun _ _ => .refl

theorem Around.appears (h : Around l a l') : Appears client ticket l l' := by
  cases h with
  | serveMessage hletIn =>
      refine .of_clients rfl fun socket c => undergoes_of_outside (o := .letIn) ?_
      change l.outbox.letIn.map _ = _
      rw [hletIn]
      rfl
  | @bring t _ ask =>
      cases ask <;> exact fun c hc => settleCall_appears t _ c hc
  | _ => exact .of_clients rfl fun _ _ => .refl

theorem finishChat_appears (s : Stanza) (o : ChatOutcome) :
    Appears client ticket l (l.finishChat s o) := by
  cases o <;> exact .of_clients rfl fun _ _ => undergoes_of_outside (o := .note _) rfl

/-- What happens to the loop, unless the connection does it, others do around it. -/
theorem happen_appears (hspares : h.Spares client ticket) (hhappen : l.happen h = some l') :
    Appears client ticket l l' := by
  have hmodify : ∀ {k} (f : Client → Client), k ≠ client →
      Appears client ticket l (l.modifyClient k f) := by
    intro k f hk c hc
    refine ⟨c, ?_, fun _ => .refl⟩
    change (l.registry.clients.modify k f)[client]? = _
    rw [List.getElem?_modify_ne _ _ hk, hc]
  cases h with
  | step now a =>
      rcases step_cases hhappen with ⟨o, s, since, -, -, -, rfl⟩ | ⟨-, hturn⟩ | haround
      · exact finishChat_appears s o
      · exact hturn.appears
      · exact haround.appears
  | takeInbox | dropInbox | stopClient =>
      cases hhappen
      exact hmodify _ hspares
  | bring t m =>
      cases hhappen
      exact .of_clients rfl fun _ _ => undergoes_of_outside (o := .bring t m) (if_neg hspares)
  | leave t =>
      cases hhappen
      exact .of_clients rfl fun _ _ => undergoes_of_outside (o := .leave t) (if_neg hspares)
  | dropMessageSender =>
      cases hhappen
      exact .of_clients rfl fun _ _ => undergoes_of_outside (o := .dropSender) rfl
  | note entries =>
      cases hhappen
      exact .of_clients rfl fun _ _ => undergoes_of_outside (o := .note entries) rfl

end Appears

section Shows

variable {client ticket now : Nat} {socket : Socket} {l : EventLoop} {x y z : Link}
  {limits : Limits} {c : Connection} {p : Connection × Link}

theorem withLink_linkOf {c : Client} (hc : l.registry.clients[client]? = some c) :
    l.withLink client (l.linkOf socket c) = l := by
  have hclients : l.registry.clients.modify client (share (l.linkOf socket c)) =
      l.registry.clients := by
    apply List.ext_getElem?
    intro k
    rw [List.getElem?_modify]
    by_cases hk : client = k
    · subst hk
      simp [hc, share, linkOf]
    · simp [hk]
  rw [withLink, Registry.modify, hclients]
  rfl

namespace Shows

theorem refl : Shows client ticket x x := fun _ => .refl

theorem trans (h : Shows client ticket x y) (h' : Shows client ticket y z) :
    Shows client ticket x z := fun l => (h l).trans (h' l)

theorem of_happen (h : Happening) (hby : h.IsBy client ticket)
    (hhappen : ∀ l : EventLoop, (l.withLink client x).happen h = some (l.withLink client y)) :
    Shows client ticket x y := fun l => .single hby (hhappen l)

theorem of_modify {h : Happening} {f : Client → Client} (hby : h.IsBy client ticket)
    (hhappen : ∀ l : EventLoop, l.happen h = some (l.modifyClient client f))
    (hf : ∀ c, f (share x c) = share y c) (hintake : y.intake = x.intake) (hlog : y.log = x.log) :
    Shows client ticket x y := by
  refine of_happen h hby fun l => ?_
  have hclients : (l.registry.clients.modify client (share x)).modify client f =
      l.registry.clients.modify client (share y) := by
    rw [List.modify_modify_eq]
    exact congrArg _ (funext hf)
  rw [hhappen]
  change some { l.withLink client x with
    registry := { l.registry with
      clients := (l.registry.clients.modify client (share x)).modify client f } } = _
  rw [hclients, withLink, withLink, hintake, hlog]
  rfl

theorem write (h : Shows client ticket x y) (entries : List LogEntry) :
    Shows client ticket x (y.write entries) :=
  h.trans (of_happen (.note entries) trivial fun _ => rfl)

theorem stop (h : Shows client ticket x y) : Shows client ticket x y.stop :=
  h.trans (of_modify (h := .stopClient client) rfl (fun _ => rfl) (fun _ => rfl) rfl rfl)

theorem take (h : Shows client ticket x y) {inbox : Mailbox Message} {m : Message}
    (htake : y.inbox.take = (.item m, inbox)) :
    Shows client ticket x { y with inbox } := by
  refine h.trans (of_modify (h := .takeInbox client) rfl (fun _ => rfl) (fun c => ?_) rfl rfl)
  rw [share, share, htake]

theorem endWriter (h : Shows client ticket x y) (e : Option ConnectionError) :
    Shows client ticket x (c.endWriter e y).2 :=
  h.trans (of_modify (h := .dropInbox client) rfl (fun _ => rfl) (fun _ => rfl) rfl rfl)

theorem breakWriter (h : Shows client ticket x y) (f : Fault) :
    Shows client ticket x (c.breakWriter f y).2 :=
  (h.write _).endWriter _

theorem beginFrame (h : Shows client ticket x y) (beat : Nat) (m : Message) :
    Shows client ticket x (Connection.beginFrame limits now beat m c y).2 := by
  unfold Connection.beginFrame
  split
  · exact h.endWriter _
  · exact h

theorem endReader (h : Shows client c.ticket x y) (e : Option ConnectionError) :
    Shows client c.ticket x (c.endReader e y).2 :=
  (h.trans (of_happen (y := { y with intake := y.intake.leave c.ticket }) (.leave c.ticket) rfl
    fun _ => rfl)).trans (of_happen .dropMessageSender trivial fun _ => rfl)

theorem hear (n : Nat) : Shows client ticket x (Connection.hear n x) := fun _ => .refl

theorem loseIntake (h : Shows client c.ticket x y) :
    Shows client c.ticket x (c.loseIntake y).2 :=
  (h.stop.write _).endReader _

theorem bring (h : Shows client c.ticket x y) {m : Message} {entry : Entry}
    {intake : Intake Message} (hbring : y.intake.bring c.ticket m = (entry, intake)) :
    Shows client c.ticket x { y with intake } := by
  refine h.trans (of_happen (.bring c.ticket m) rfl fun l => ?_)
  change some { l.withLink client y with outbox := (y.intake.bring c.ticket m).2 } = _
  rw [hbring]
  rfl

end Shows

theorem writer_shows {s : Connection.WriterStep}
    (h : Connection.WriterTurn limits now c x s p) : Shows client ticket x p.2 := by
  cases h with
  | failsToStart | breaks => exact Shows.refl.breakWriter _
  | starts | puts => exact .refl
  | takes _ htake => exact (Shows.refl.take htake).beginFrame _ _
  | beats => exact Shows.refl.beginFrame _ _
  | forgotten => exact Shows.refl.stop.endWriter _
  | stops | losesClient | expires => exact Shows.refl.endWriter _

theorem reader_shows {s : Connection.ReaderStep}
    (h : Connection.ReaderTurn limits now c x s p) : Shows client c.ticket x p.2 := by
  cases h with
  | undecodable | oversized => exact (Shows.hear _).endReader _
  | stops | streamEnds | expires => exact Shows.refl.endReader _
  | pong => exact (Shows.hear _).write _
  | hears => exact .hear _
  | resumes => exact .refl
  | putsIn _ hbring | standsInLine _ hbring => exact Shows.refl.bring hbring
  | refused | losesPlace => exact Shows.refl.loseIntake
  | breaks => exact (Shows.refl.write _).endReader _

theorem coordinator_shows {s : Connection.CoordinatorStep}
    (h : Connection.stepCoordinator s c x = some p) : Shows client ticket x p.2 := by
  unfold Connection.stepCoordinator at h
  repeat' split at h
  all_goals cases h
  all_goals exact Shows.refl.stop.write _

/-- Whatever a connection does, happens to the loop. -/
theorem step_shows {a : Connection.Action} (h : Connection.step limits now a c x = some p) :
    Shows client c.ticket x p.2 := by
  cases a with
  | writer s => exact writer_shows (Connection.writerTurn_of_step h)
  | reader s => exact reader_shows (Connection.readerTurn_of_step h)
  | coordinator s => exact coordinator_shows h

end Shows

end HookRelay.EventLoop
