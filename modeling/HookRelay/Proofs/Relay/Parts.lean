import HookRelay.Proofs.Connection.Reading
import HookRelay.Proofs.EventLoop.Clients
import HookRelay.Proofs.EventLoop.Forwarding
import HookRelay.Proofs.Relay.Delivery
/-!
The parts of the relay. For its event loop, a run of the relay is a run of the loop among
its clients; for each connection, it is a run of that connection among all that it shares.
So what holds of every run of a part, holds of the part in every run of the relay.
-/

namespace HookRelay.Relay

open EventLoop (Undergoes GoesOn)

/-- How many bytes the relay has taken from the socket at position `k`. -/
def taken (r : Relay) (k : Nat) : Nat := (r.sockets.map (·.inbound.taken))[k]?.getD 0

/-- For the connection at position `i`, all that has happened is one of its runs. It started
on a socket of which nothing had been read, and nothing waited under its ticket. -/
def IsPart (i : Nat) (s : Served) (r : Relay) : Prop :=
  ∃ l, r.link? s = some l ∧ ∃ id start link,
    link.socket.inbound.taken = 0 ∧ link.intake.isWaiting i = false ∧
      Steps.Reaches (Connection.happen r.limits) (fun _ => True)
        (Connection.start r.limits id i start, link) (s.connection, l)

/-- Every connection is a part of the relay. What it still has to come to is untouched. -/
structure Parted (r : Relay) : Prop where
  fresh : ∀ k, r.handed ≤ k → r.taken k = 0
  strangers : ∀ t, r.connections.length ≤ t → Intake.itemsOf t r.loop.outbox.line = []
  served : ∀ i s, r.connections[i]? = some s → IsPart i s r

/-- A step that is no connection's own. -/
structure Elsewhere (r r' : Relay) : Prop where
  limits : r'.limits = r.limits
  loop : GoesOn r.loop r'.loop
  sockets : ∀ k x, k < r.handed → r.sockets[k]? = some x →
    ∃ x', r'.sockets[k]? = some x' ∧
    ∀ ticket (l : Link), Undergoes ticket { l with socket := x } { l with socket := x' }
  taken : ∀ k, r'.taken k = r.taken k

/-- The part of the relay that a step concerns. -/
inductive Concerns (r : Relay) : Relay → Prop
  | nobody {r' : Relay} :
      Elsewhere r r' → r'.connections = r.connections → r.handed ≤ r'.handed → Concerns r r'
  | newcomer {k client : Nat} {c : Client} :
      r.acceptor.phase = .registering k → r.loop.registry.clients[client]? = some c →
      Concerns r (r.serve k client c.id)
  | connection {i : Nat} {s : Served} {l : Link} {a : Connection.Action}
      {x : Connection × Link} :
      r.connections[i]? = some s → r.link? s = some l →
      Connection.step r.limits r.now a s.connection l = some x → Concerns r (r.connect i s x)

variable {r r' : Relay} {i k ticket : Nat} {s t : Served} {l l' : Link} {a : Action}

section Elsewhere

variable {loop : EventLoop} {f : Socket → Socket}

theorem taken_of_map_eq
    (h : r'.sockets.map (·.inbound.taken) = r.sockets.map (·.inbound.taken)) (k : Nat) :
    r'.taken k = r.taken k := by
  rw [taken, h, taken]

theorem Elsewhere.of_loop (hlimits : r'.limits = r.limits) (hsockets : r'.sockets = r.sockets)
    (hloop : GoesOn r.loop r'.loop) :
    Elsewhere r r' where
  limits := hlimits
  loop := hloop
  sockets k x _ hx := ⟨x, by rw [hsockets, hx], fun _ _ => .refl⟩
  taken := taken_of_map_eq (by rw [hsockets])

theorem modifySocket_elsewhere (k : Nat) (htaken : ∀ x, (f x).inbound.taken = x.inbound.taken)
    (hf : ∀ x, r.sockets[k]? = some x → ∀ ticket (l : Link),
      Undergoes ticket { l with socket := x } { l with socket := f x }) :
    Elsewhere r (r.modifySocket k f) where
  limits := rfl
  loop := .refl
  sockets j x _ hx := by
    by_cases hk : k = j
    · subst hk
      refine ⟨f x, ?_, hf x hx⟩
      change (r.sockets.modify k f)[k]? = _
      rw [List.getElem?_modify_eq, hx]
      rfl
    · refine ⟨x, ?_, fun _ _ => .refl⟩
      change (r.sockets.modify k f)[j]? = _
      rw [List.getElem?_modify_ne _ _ hk, hx]
  taken := by
    refine taken_of_map_eq (List.ext_getElem? fun j => ?_)
    change ((r.sockets.modify k f).map _)[j]? = _
    rw [List.getElem?_map, List.getElem?_map, List.getElem?_modify]
    rcases r.sockets[j]? with _ | x
    · rfl
    · by_cases hk : k = j <;> simp [hk, htaken]

theorem dial_elsewhere :
    Elsewhere r { r with sockets := r.sockets ++ [{ window := r.window }] } where
  limits := rfl
  loop := .refl
  sockets k x _ hx := by
    refine ⟨x, ?_, fun _ _ => .refl⟩
    exact (List.getElem?_append_left (List.getElem?_eq_some_iff.mp hx).1).trans hx
  taken k := by
    rw [Relay.taken, Relay.taken, List.map_append, List.getElem?_append]
    split
    · rfl
    · next hk =>
      rw [List.getElem?_eq_none (Nat.le_of_not_lt hk)]
      rcases k - (r.sockets.map (·.inbound.taken)).length with _ | _ <;> rfl

theorem endAcceptor_elsewhere (state : ListenerState) {first : Nat} (hfirst : r.handed ≤ first)
    (hloop : GoesOn r.loop loop) :
    Elsewhere r ({ r with loop }.endAcceptor state first) where
  limits := rfl
  loop := by
    have hdrop : loop.step r.now .dropRequestSender =
        some { loop with requests := loop.requests.dropSender } :=
      EventLoop.Around.dropRequestSender.step
    exact (hloop.trans (EventLoop.goesOn_step hdrop)).trans (EventLoop.goesOn_write _)
  sockets k x hk hx := by
    refine ⟨x, ?_, fun _ _ => .refl⟩
    have hlt : k < (r.sockets.take first).length := by
      rw [List.length_take]
      exact Nat.lt_min.mpr ⟨Nat.lt_of_lt_of_le hk hfirst, (List.getElem?_eq_some_iff.mp hx).1⟩
    change (r.sockets.take first ++ (r.sockets.drop first).map Socket.hangUp)[k]? = _
    rw [List.getElem?_append_left hlt, List.getElem?_take_of_lt (Nat.lt_of_lt_of_le hk hfirst), hx]
  taken := by
    refine taken_of_map_eq ?_
    change (r.sockets.take first ++ (r.sockets.drop first).map Socket.hangUp).map
      (·.inbound.taken) = _
    rw [List.map_append, List.map_map]
    change _ ++ (r.sockets.drop first).map (·.inbound.taken) = _
    rw [← List.map_append, List.take_append_drop]

theorem concerns_of_step (haccepts : Accepts r) (h : r.step a = some r') : Concerns r r' := by
  have hsocket : ∀ {k} {f : Socket → Socket} {o : Connection.Around},
      (∀ x, (f x).inbound.taken = x.inbound.taken) →
      (∀ x, r.sockets[k]? = some x → ∀ ticket (l : Link),
        Connection.outside ticket o { l with socket := x } = some { l with socket := f x }) →
      Concerns r (r.modifySocket k f) := fun htaken hf =>
    .nobody
      (modifySocket_elsewhere _ htaken fun x hx ticket l => .single trivial (hf x hx ticket l))
      rfl (Nat.le_refl _)
  cases turn_of_step h with
  | loop _ hloop =>
      exact .nobody (.of_loop rfl rfl (EventLoop.goesOn_step hloop)) rfl (Nat.le_refl _)
  | cannotListen hphase =>
      have hhanded : r.handed = r.acceptor.accepted := by rw [handed, hphase]
      exact .nobody (endAcceptor_elsewhere _ (Nat.le_of_eq hhanded) (EventLoop.goesOn_write _)) rfl
        haccepts.handed_le
  | listens => exact .nobody (.of_loop rfl rfl .refl) rfl haccepts.handed_le
  | stops hphase =>
      have hhanded : r.handed = r.acceptor.accepted := by rw [handed, hphase]
      exact .nobody (endAcceptor_elsewhere _ (Nat.le_of_eq hhanded) .refl) rfl haccepts.handed_le
  | accepts _ _ hloop =>
      exact .nobody (.of_loop rfl rfl (EventLoop.goesOn_step hloop)) rfl haccepts.handed_le
  | @turnedDown k hphase =>
      have hhanded : r.handed = k := by rw [handed, hphase]
      exact .nobody (endAcceptor_elsewhere _ (Nat.le_of_eq hhanded) .refl) rfl haccepts.handed_le
  | serves hphase _ hc => exact .newcomer hphase hc
  | connects hs hl hstep => exact .connection hs hl hstep
  | dials => exact .nobody dial_elsewhere rfl (Nat.le_refl _)
  | @sends k x bs hx hsending =>
      refine hsocket (o := .send bs) (fun _ => rfl) fun x' hx' ticket l => ?_
      obtain rfl := Option.some.inj (hx.symm.trans hx')
      exact if_pos hsending
  | halfCloses => exact hsocket (o := .halfClose) (fun _ => rfl) fun _ _ _ _ => rfl
  | closes => exact hsocket (o := .close) (fun _ => rfl) fun _ _ _ _ => rfl
  | receives => exact hsocket (o := .receive) (fun _ => rfl) fun _ _ _ _ => rfl
  | ticks => exact .nobody (.of_loop rfl rfl .refl) rfl (Nat.le_refl _)

end Elsewhere

theorem connect_reaches {x : Connection × Link} {a : Connection.Action} {now : Nat}
    (hl : r.link? s = some l) (hstep : Connection.step r.limits now a s.connection l = some x) :
    Steps.Reaches EventLoop.happen (EventLoop.Happening.IsBy s.client s.connection.ticket) r.loop
      (r.connect i s x).loop := by
  obtain ⟨_, c, -, hc, rfl⟩ := link?_eq_some_iff.mp hl
  have hshows : EventLoop.Shows s.client s.connection.ticket _ x.2 := EventLoop.step_shows hstep
  have hreaches := hshows r.loop
  rwa [EventLoop.withLink_linkOf hc] at hreaches

/-- Whatever the relay does, its loop does among its clients. -/
theorem loop_reaches (h : Concerns r r') :
    Steps.Reaches EventLoop.happen (fun _ => True) r.loop r'.loop := by
  cases h with
  | nobody h => exact h.loop.mono fun _ _ => trivial
  | newcomer => exact .refl
  | connection _ hl hstep => exact (connect_reaches hl hstep).mono fun _ _ => trivial

section Connection

variable {x : Connection × Link} {limits : Limits} {c : Connection}

theorem around_reaches (h : Undergoes c.ticket l l') :
    Steps.Reaches (Connection.happen limits) (fun _ => True) (c, l) (c, l') := by
  refine h.keeps (P := fun l' => Steps.Reaches _ _ (c, l) (c, l')) .refl ?_
  intro o l₁ l₂ _ houtside hreaches
  refine hreaches.trans (.single (a := .around o) trivial ?_)
  rw [Connection.happen, houtside]
  rfl

theorem ticket_of_step {a : Connection.Action} {now : Nat}
    (h : Connection.step limits now a c l = some x) : x.1.ticket = c.ticket := by
  cases a with
  | writer step => exact (Connection.stepWriter_sameReading h).ticket
  | coordinator step => exact (Connection.stepCoordinator_sameReading h).ticket
  | reader step => cases Connection.readerTurn_of_step h <;> rfl

theorem ticket_of_reaches {y : Connection × Link}
    (h : Steps.Reaches (Connection.happen limits) (fun _ => True) x y) :
    y.1.ticket = x.1.ticket := by
  refine h.keeps (P := fun y => y.1.ticket = x.1.ticket) rfl ?_
  intro happening y₁ y₂ _ hhappen hticket
  cases happening with
  | step now a => rw [ticket_of_step hhappen, hticket]
  | around o =>
      obtain ⟨_, -, rfl⟩ := Option.map_eq_some_iff.mp hhappen
      exact hticket

theorem IsPart.ticket_eq (h : IsPart i s r) : s.connection.ticket = i := by
  obtain ⟨_, -, _, _, _, -, -, hreaches⟩ := h
  exact ticket_of_reaches hreaches

theorem IsPart.undergoes (h : IsPart i s r) (hlimits : r'.limits = r.limits)
    (hlink : ∀ l, r.link? s = some l → ∃ l', r'.link? s = some l' ∧ Undergoes i l l') :
    IsPart i s r' := by
  have hticket := h.ticket_eq
  obtain ⟨l, hl, id, start, link, htaken, hwaiting, hreaches⟩ := h
  obtain ⟨l', hl', hundergoes⟩ := hlink l hl
  refine ⟨l', hl', id, start, link, htaken, hwaiting, ?_⟩
  rw [hlimits]
  exact hreaches.trans (around_reaches (hticket ▸ hundergoes))

theorem appears_of_reaches {kind : EventLoop.Happening → Prop} {loop loop' : EventLoop}
    {client : Nat} (hkind : ∀ h, kind h → h.Spares client ticket)
    (h : Steps.Reaches EventLoop.happen kind loop loop') :
    EventLoop.Appears client ticket loop loop' := by
  refine h.keeps (P := EventLoop.Appears client ticket loop) ?_ ?_
  · exact fun c hc => ⟨c, hc, fun _ => .refl⟩
  · intro happening l₁ l₂ hby hhappen happears c hc
    obtain ⟨c₁, hc₁, hundergoes₁⟩ := happears c hc
    obtain ⟨c₂, hc₂, hundergoes₂⟩ :=
      EventLoop.happen_appears (hkind _ hby) hhappen c₁ hc₁
    exact ⟨c₂, hc₂, fun socket => (hundergoes₁ socket).trans (hundergoes₂ socket)⟩

theorem itemsOf_of_reaches {kind : EventLoop.Happening → Prop} {loop loop' : EventLoop}
    {client : Nat} (hkind : ∀ h, kind h → h.Spares client ticket)
    (h : Steps.Reaches EventLoop.happen kind loop loop')
    (hline : Intake.itemsOf ticket loop.outbox.line = []) :
    Intake.itemsOf ticket loop'.outbox.line = [] := by
  refine h.keeps (P := fun loop => Intake.itemsOf ticket loop.outbox.line = []) hline ?_
  intro happening l₁ l₂ hby hhappen hnothing
  have hspares := hkind _ hby
  have hbringing : EventLoop.bringingOf ticket happening = [] := by
    cases happening with
    | bring t m => exact if_neg hspares
    | _ => rfl
  have hsublist := EventLoop.itemsOf_happen hhappen ticket
  rw [hnothing, hbringing] at hsublist
  exact (List.append_eq_nil_iff.mp (List.sublist_nil.mp hsublist)).2

theorem spares_of_isBy {client client' ticket' : Nat} (hclient : client' ≠ client)
    (hticket : ticket' ≠ ticket) (h : EventLoop.Happening) (hby : h.IsBy client' ticket') :
    h.Spares client ticket := by
  cases h with
  | step | dropMessageSender | note => trivial
  | takeInbox | dropInbox | stopClient =>
      cases hby
      exact hclient
  | bring | leave =>
      cases hby
      exact hticket

theorem connect_isPart {a : Connection.Action} (hl : r.link? s = some l)
    (hstep : Connection.step r.limits r.now a s.connection l = some x)
    (h : IsPart i s r) : IsPart i { s with connection := x.1 } (r.connect i s x) := by
  obtain ⟨l₁, hl₁, id, start, link, htaken, hwaiting, hreaches⟩ := h
  obtain rfl := Option.some.inj (hl.symm.trans hl₁)
  refine ⟨x.2, ?_, id, start, link, htaken, hwaiting, ?_⟩
  · obtain ⟨y, c, hy, hc, -⟩ := link?_eq_some_iff.mp hl
    refine link?_eq_some_iff.mpr ⟨x.2.socket, EventLoop.share x.2 c, ?_, ?_, rfl⟩
    · change (r.sockets.set s.socket x.2.socket)[s.socket]? = _
      exact List.getElem?_set_self (List.getElem?_eq_some_iff.mp hy).1
    · change (r.loop.registry.clients.modify s.client (EventLoop.share x.2))[s.client]? = _
      rw [List.getElem?_modify_eq, hc]
      rfl
  · have hhappen : Connection.happen r.limits (.step r.now a) (s.connection, l) = some x := hstep
    exact hreaches.trans (.single trivial hhappen)

theorem connect_isPart_of_ne {j : Nat} {a : Connection.Action} (hl : r.link? s = some l)
    (hstep : Connection.step r.limits r.now a s.connection l = some x)
    (hsocket : s.socket ≠ t.socket) (hclient : s.client ≠ t.client)
    (hticket : s.connection.ticket ≠ j) (h : IsPart j t r) : IsPart j t (r.connect i s x) := by
  refine h.undergoes rfl fun l₁ hl₁ => ?_
  obtain ⟨y, c, hy, hc, rfl⟩ := link?_eq_some_iff.mp hl₁
  have happears := appears_of_reaches (spares_of_isBy hclient hticket)
    (connect_reaches (i := i) hl hstep)
  obtain ⟨c', hc', hundergoes⟩ := happears c hc
  refine ⟨_, link?_eq_some_iff.mpr ⟨y, c', ?_, hc', rfl⟩, hundergoes y⟩
  change (r.sockets.set s.socket x.2.socket)[t.socket]? = _
  rw [List.getElem?_set_ne hsocket, hy]

theorem Elsewhere.isPart (h : Elsewhere r r') (hsocket : s.socket < r.handed)
    (hpart : IsPart i s r) : IsPart i s r' := by
  refine hpart.undergoes h.limits fun l hl => ?_
  obtain ⟨x, c, hx, hc, rfl⟩ := link?_eq_some_iff.mp hl
  obtain ⟨x', hx', hsockets⟩ := h.sockets _ x hsocket hx
  obtain ⟨c', hc', hundergoes⟩ := appears_of_reaches (fun h hspares => hspares _ _) h.loop c hc
  exact ⟨_, link?_eq_some_iff.mpr ⟨x', c', hx', hc', rfl⟩,
    (hundergoes x).trans (hsockets i (r'.loop.linkOf x c'))⟩

theorem serve_isPart {client : Nat} {c : Client} {y : Socket} (hy : r.sockets[k]? = some y)
    (hc : r.loop.registry.clients[client]? = some c) (hfresh : y.inbound.taken = 0)
    (hline : Intake.itemsOf r.connections.length r.loop.outbox.line = []) :
    IsPart r.connections.length
      { socket := k, client, connection :=
          Connection.start r.limits c.id r.connections.length r.now }
      (r.serve k client c.id) := by
  refine ⟨_, link?_eq_some_iff.mpr ⟨y, c, hy, hc, rfl⟩, c.id, r.now, r.loop.linkOf y c,
    hfresh, ?_, .refl⟩
  exact Intake.itemsOf_eq_nil_iff.mp hline

end Connection

/-- Nothing that the relay does breaks it up. -/
theorem Parted.concerns {sent pending : List Event} {joined : List Nat}
    (hdelivers : Delivers sent pending joined r) (hparted : Parted r) (h : Concerns r r') :
    Parted r' := by
  have hhanded : ∀ {i} {s : Served}, r.connections[i]? = some s → s.socket < r.handed :=
    fun hs => hdelivers.wired.handed _ (mem_wires (List.mem_of_getElem? hs))
  cases h with
  | nobody helsewhere hconnections hle =>
      refine ⟨fun k hk => ?_, fun t ht => ?_, fun i s hs => ?_⟩
      · rw [helsewhere.taken]
        exact hparted.fresh k (Nat.le_trans hle hk)
      · rw [hconnections] at ht
        exact itemsOf_of_reaches (fun h hspares => hspares 0 _) helsewhere.loop
          (hparted.strangers t ht)
      · rw [hconnections] at hs
        exact helsewhere.isPart (hhanded hs) (hparted.served i s hs)
  | @newcomer k client c hphase hc =>
      -- Nothing has been read from the socket, and nothing has been brought with the ticket.
      have hk : r.handed = k := by rw [handed, hphase]
      have haccepted := hdelivers.wired.accepts.registering k hphase
      have hlt : k < r.sockets.length := by
        have hle := hdelivers.wired.accepts.accepted
        omega
      refine ⟨fun j hj => ?_, fun t ht => ?_, fun i s hs => ?_⟩
      · change r.acceptor.accepted ≤ j at hj
        exact hparted.fresh j (by omega)
      · have hlength : (r.serve k client c.id).connections.length = r.connections.length + 1 :=
          List.length_append
        exact hparted.strangers t (by omega)
      · change (r.connections ++ [_])[i]? = some s at hs
        rw [List.getElem?_append] at hs
        split at hs
        · exact hparted.served i s hs
        · next hi =>
          have hy : r.sockets[k]? = some r.sockets[k] := List.getElem?_eq_getElem hlt
          have hfresh : r.sockets[k].inbound.taken = 0 := by
            have hnothing := hparted.fresh k (Nat.le_of_eq hk)
            rw [Relay.taken, List.getElem?_map, hy] at hnothing
            exact hnothing
          obtain ⟨hindex, hs⟩ := List.getElem?_eq_some_iff.mp hs
          rw [List.length_singleton] at hindex
          obtain rfl : i = r.connections.length := by omega
          rw [List.getElem_singleton] at hs
          exact hs ▸ serve_isPart hy hc hfresh (hparted.strangers _ (Nat.le_refl _))
  | @connection i s l a x hs hl hstep =>
      have hticket := (hparted.served i s hs).ticket_eq
      have hi := (List.getElem?_eq_some_iff.mp hs).1
      refine ⟨fun k hk => ?_, fun t ht => ?_, fun j t ht => ?_⟩
      · have hne : s.socket ≠ k := Nat.ne_of_lt (Nat.lt_of_lt_of_le (hhanded hs) hk)
        rw [← hparted.fresh k hk]
        change ((r.sockets.set s.socket x.2.socket).map (·.inbound.taken))[k]?.getD 0 = _
        rw [Relay.taken, List.getElem?_map, List.getElem?_map, List.getElem?_set_ne hne]
      · change (r.connections.set i _).length ≤ t at ht
        rw [List.length_set] at ht
        have hne : s.connection.ticket ≠ t := by omega
        exact itemsOf_of_reaches (spares_of_isBy (Nat.ne_of_lt (Nat.lt_succ_self _)) hne)
          (connect_reaches (i := i) hl hstep) (hparted.strangers t ht)
      · change (r.connections.set i { s with connection := x.1 })[j]? = _ at ht
        by_cases hij : i = j
        · subst hij
          rw [List.getElem?_set_self hi] at ht
          cases ht
          exact connect_isPart hl hstep (hparted.served i s hs)
        · rw [List.getElem?_set_ne hij] at ht
          obtain ⟨hsocket, hclient⟩ := hdelivers.ne_of_ne hs ht hij
          exact connect_isPart_of_ne hl hstep hsocket hclient (hticket ▸ hij)
            (hparted.served j t ht)

theorem create_parted {n : Network} {settings : Settings}
    (h : Relay.create n settings = .ok r) : Parted r := by
  obtain ⟨loop, hloop, h⟩ := exists_of_bind_eq_ok h
  cases h
  refine ⟨fun _ _ => rfl, fun t _ => ?_, nofun⟩
  change Intake.itemsOf t loop.outbox.line = []
  rw [EventLoop.eq_of_create hloop]
  rfl

variable {as : List Action} {start : Relay}

theorem run_parted {n : Network} {settings : Settings}
    (hcreate : Relay.create n settings = .ok start) (hrun : run as start = some r) :
    Parted r ∧ Steps.Reaches EventLoop.happen (fun _ => True) start.loop r.loop := by
  induction as using List.reverseRecOn generalizing r with
  | nil =>
      cases hrun
      exact ⟨create_parted hcreate, .refl⟩
  | append_singleton as act ih =>
      obtain ⟨r₀, hrun₀, hstep⟩ := exists_of_run_concat hrun
      obtain ⟨hparted, hreaches⟩ := ih hrun₀
      obtain ⟨_, _, _, -, hdelivers, -⟩ := run_delivers hcreate hrun₀
      have hconcerns := concerns_of_step hdelivers.wired.accepts hstep
      exact ⟨hparted.concerns hdelivers hconcerns, hreaches.trans (loop_reaches hconcerns)⟩

/-- What a run of the relay is for its event loop is a run of the loop among its clients,
from its start. -/
theorem exists_loop_run {n : Network} {settings : Settings}
    (hcreate : Relay.create n settings = .ok start) (hrun : run as start = some r) :
    EventLoop.create settings = .ok start.loop ∧ ∃ hs, start.loop.run hs = some r.loop := by
  obtain ⟨-, hs, -, hloop⟩ := run_parted hcreate hrun
  obtain ⟨loop, hcreated, hstart⟩ := exists_of_bind_eq_ok hcreate
  cases hstart
  exact ⟨hcreated, hs, hloop⟩

/-- What a run of the relay is for one of its connections is a run of that connection, from
its start, among all that it shares with the rest of the relay. -/
theorem exists_connection_run {n : Network} {settings : Settings}
    (hcreate : Relay.create n settings = .ok start) (hrun : run as start = some r)
    (hs : r.connections[i]? = some s) :
    ∃ l id now link happenings, r.link? s = some l ∧ link.socket.inbound.taken = 0 ∧
      link.intake.isWaiting i = false ∧
      Connection.run r.limits happenings (Connection.start r.limits id i now, link) =
        some (s.connection, l) := by
  obtain ⟨l, hl, id, now, link, htaken, hwaiting, happenings, -, hconnection⟩ :=
    (run_parted hcreate hrun).1.served i s hs
  exact ⟨l, id, now, link, happenings, hl, htaken, hwaiting, hconnection⟩

end HookRelay.Relay
