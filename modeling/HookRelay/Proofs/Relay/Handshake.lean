import HookRelay.Proofs.EventLoop.Registrations
import HookRelay.Proofs.EventLoop.Shutdown
import HookRelay.Proofs.Relay.Parts
/-!
How the acceptor and the loop agree on who is served. The acceptor asks for one socket at a
time, so the loop's answers come in the order of the sockets, and the first answer that turns
a socket down is the last one. The sockets that are served are the first that were accepted,
each with the client of its own number.
-/

namespace HookRelay

theorem Connection.id_of_step {limits : Limits} {now : Nat} {a : Action} {c : Connection}
    {l : Link} {x : Connection × Link} (h : step limits now a c l = some x) : x.1.id = c.id := by
  cases a with
  | writer s =>
      cases writerTurn_of_step h with
      | takes | beats =>
          unfold beginFrame
          split <;> rfl
      | failsToStart | starts | stops | forgotten | losesClient | puts | expires | breaks => rfl
  | reader s => cases readerTurn_of_step h <;> rfl
  | coordinator s =>
      change stepCoordinator s c l = some x at h
      unfold stepCoordinator at h
      repeat' split at h
      all_goals cases h
      all_goals rfl

/-- The ways in which what can be seen of the acceptor changes. -/
inductive ListenerState.Next : ListenerState → ListenerState → Prop
  | listens (a : Address) : Next .pending (.listening a)
  | disables : Next .pending .disabled
  | closes (a : Address) : Next (.listening a) .closed

namespace Relay

/-- The replies to the requests for the first `n` sockets if the loop registers a client for
each. -/
def seated (n : Nat) : List (Nat × Option Nat) := (List.range n).map fun k => (k, some k)

/-- How far the acceptor and the loop have come once `n` sockets are served. -/
inductive Stage (n : Nat) (p : Acceptor) (l : EventLoop) : Prop
  /-- Nothing is to be decided. -/
  | idle :
      (∀ k, p.phase ≠ .registering k) → p.accepted = n → l.replies = seated n →
      l.undecided = [] → Stage n p l
  /-- The loop has to decide about the next socket. -/
  | asked :
      p.phase = .registering n → p.accepted = n + 1 → l.replies = seated n →
      l.undecided = [n] → Stage n p l
  /-- The acceptor has to learn what was decided. -/
  | answered (client : Option Nat) :
      p.phase = .registering n → p.accepted = n + 1 → l.replies = seated n ++ [(n, client)] →
      l.undecided = [] → Stage n p l
  /-- The next socket was turned down. -/
  | turnedDown :
      p.phase = .ended → p.accepted = n + 1 → l.replies = seated n ++ [(n, none)] →
      l.undecided = [] → Stage n p l

/-- The sockets that are served are the first ones, each with the client of its number, and
the handshake over the next one is at some stage. -/
structure Seats (r : Relay) : Prop where
  names : r.loop.NamesSockets
  wires : r.wires = (List.range r.connections.length).map fun k => (k, k)
  ids : ∀ s ∈ r.connections, s.connection.id = UInt64.ofNat s.client
  stage : Stage r.connections.length r.acceptor r.loop

variable {n k : Nat} {p : Acceptor} {l l' : EventLoop} {r r' : Relay} {a : Action}
  {x : Option Nat}

theorem mem_seated : (k, x) ∈ seated n ↔ k < n ∧ x = some k := by
  simp [seated, eq_comm]

theorem seated_succ (n : Nat) : seated (n + 1) = seated n ++ [(n, some n)] := by
  rw [seated, List.range_succ, List.map_append]
  rfl

theorem admitted_seated (n : Nat) : EventLoop.admitted (seated n) = List.range n := by
  rw [EventLoop.admitted, seated, List.filterMap_map]
  exact List.filterMap_some

theorem eq_of_admitted {client clients : Nat}
    (h : EventLoop.admitted (seated n ++ [(n, some client)]) = List.range clients) :
    client = n := by
  rw [EventLoop.admitted_registered, admitted_seated] at h
  obtain rfl : n + 1 = clients := by simpa using congrArg List.length h
  rw [List.range_succ] at h
  exact List.singleton_inj.mp (List.append_cancel_left h)

theorem length_admitted (n : Nat) (x : Option Nat) :
    n ≤ (EventLoop.admitted (seated n ++ [(n, x)])).length ∧
      (EventLoop.admitted (seated n ++ [(n, x)])).length ≤ n + 1 := by
  cases x with
  | none =>
      have hnone := EventLoop.admitted_refused (seated n) [n]
      rw [List.map_singleton] at hnone
      rw [hnone, admitted_seated, List.length_range]
      exact ⟨Nat.le_refl n, Nat.le_succ n⟩
  | some client =>
      rw [EventLoop.admitted_registered, List.length_append, admitted_seated, List.length_range]
      exact ⟨Nat.le_succ n, Nat.le_refl _⟩

namespace Stage

theorem decides (h : Stage n p l) (hdecides : EventLoop.Decides [] l l') : Stage n p l' := by
  have hkept : l.undecided = [] → l'.replies = l.replies ∧ l'.undecided = [] := by
    intro hnone
    exact hdecides.of_nil (by rw [hnone, List.append_nil])
  cases h with
  | asked hphase haccepted hseated hone =>
      rw [← List.append_nil l.undecided] at hone
      rcases hdecides.of_singleton hone with ⟨hreplies, hundecided⟩ |
        ⟨client, hreplies, hundecided⟩
      · exact .asked hphase haccepted (hreplies.trans hseated) hundecided
      · exact .answered client hphase haccepted (by rw [hreplies, hseated]) hundecided
  | idle hphase haccepted hseated hnone =>
      obtain ⟨hreplies, hundecided⟩ := hkept hnone
      exact .idle hphase haccepted (hreplies.trans hseated) hundecided
  | answered client hphase haccepted hseated hnone =>
      obtain ⟨hreplies, hundecided⟩ := hkept hnone
      exact .answered client hphase haccepted (hreplies.trans hseated) hundecided
  | turnedDown hphase haccepted hseated hnone =>
      obtain ⟨hreplies, hundecided⟩ := hkept hnone
      exact .turnedDown hphase haccepted (hreplies.trans hseated) hundecided

theorem eq_of_accepting (h : Stage n p l)
    (hphase : p.phase = .starting ∨ p.phase = .accepting) :
    p.accepted = n ∧ l.replies = seated n ∧ l.undecided = [] := by
  cases h with
  | idle _ haccepted hseated hnone => exact ⟨haccepted, hseated, hnone⟩
  | asked hother | answered _ hother | turnedDown hother => simp [hother] at hphase

theorem accepts (h : Stage n p l) (hphase : p.phase = .accepting)
    (hdecides : EventLoop.Decides [p.accepted] l l') :
    Stage n { p with phase := .registering p.accepted, accepted := p.accepted + 1 } l' := by
  obtain ⟨haccepted, hseated, hnone⟩ := h.eq_of_accepting (.inr hphase)
  rw [haccepted] at hdecides ⊢
  rcases hdecides.of_singleton (by rw [hnone, List.nil_append]) with
    ⟨hreplies, hundecided⟩ | ⟨client, hreplies, hundecided⟩
  · exact .asked rfl rfl (hreplies.trans hseated) hundecided
  · exact .answered client rfl rfl (by rw [hreplies, hseated]) hundecided

theorem of_registering (h : Stage n p l) (hphase : p.phase = .registering k) :
    k = n ∧ p.accepted = n + 1 := by
  cases h with
  | idle hidle => exact absurd hphase (hidle k)
  | asked hregistering haccepted | answered _ hregistering haccepted =>
      rw [hphase] at hregistering
      cases hregistering
      exact ⟨rfl, haccepted⟩
  | turnedDown hended =>
      rw [hphase] at hended
      cases hended

theorem eq_of_lookup (h : Stage n p l) (hphase : p.phase = .registering k)
    (hlookup : l.replies.lookup k = some x) :
    k = n ∧ p.accepted = n + 1 ∧ l.replies = seated n ++ [(n, x)] ∧ l.undecided = [] := by
  obtain ⟨rfl, haccepted⟩ := h.of_registering hphase
  obtain ⟨before, after, hreplies, -⟩ := List.lookup_eq_some_iff.mp hlookup
  have hmem : (k, x) ∈ l.replies := by simp [hreplies]
  have hfresh : (k, x) ∉ seated k := fun hmem => Nat.lt_irrefl k (mem_seated.mp hmem).1
  cases h with
  | idle hidle => exact absurd hphase (hidle k)
  | asked _ _ hseated =>
      rw [hseated] at hmem
      exact absurd hmem hfresh
  | answered client _ _ hseated hnone =>
      rw [hseated, List.mem_append, List.mem_singleton] at hmem
      cases hmem.resolve_left hfresh
      exact ⟨rfl, haccepted, hseated, hnone⟩
  | turnedDown hended =>
      rw [hphase] at hended
      cases hended

theorem length_le (h : Stage n p l) :
    n ≤ (EventLoop.admitted l.replies).length ∧
      (EventLoop.admitted l.replies).length ≤ p.accepted := by
  cases h with
  | idle _ haccepted hseated =>
      rw [hseated, admitted_seated, List.length_range, haccepted]
      exact ⟨Nat.le_refl n, Nat.le_refl n⟩
  | asked _ haccepted hseated =>
      rw [hseated, admitted_seated, List.length_range, haccepted]
      exact ⟨Nat.le_refl n, Nat.le_succ n⟩
  | answered client _ haccepted hseated =>
      rw [hseated, haccepted]
      exact length_admitted n client
  | turnedDown _ haccepted hseated =>
      rw [hseated, haccepted]
      exact length_admitted n none

theorem accepted_le (h : Stage n p l) : p.accepted ≤ n + 1 := by
  cases h with
  | idle _ haccepted => exact Nat.le_succ_of_le (Nat.le_of_eq haccepted)
  | asked _ haccepted | answered _ _ haccepted | turnedDown _ haccepted =>
      exact Nat.le_of_eq haccepted

end Stage

namespace Seats

theorem sockets (h : Seats r) :
    r.connections.map (·.socket) = List.range r.connections.length := by
  have hwires : r.wires.map (·.1) = List.range r.connections.length := by
    rw [h.wires, List.map_map]
    exact List.map_id _
  rw [← hwires, Relay.wires, List.map_map]
  rfl

theorem clients (h : Seats r) :
    r.connections.map (·.client) = List.range r.connections.length := by
  have hwires : r.wires.map (·.2) = List.range r.connections.length := by
    rw [h.wires, List.map_map]
    exact List.map_id _
  rw [← hwires, Relay.wires, List.map_map]
  rfl

theorem socket_eq {s : Served} (h : Seats r) (hs : s ∈ r.connections) :
    s.socket = s.client ∧ s.client < r.connections.length := by
  have hwire := mem_wires hs
  rw [h.wires, List.mem_map] at hwire
  obtain ⟨k, hk, hsame⟩ := hwire
  obtain ⟨hsocket, hclient⟩ := Prod.mk.inj hsame
  rw [← hsocket, ← hclient]
  exact ⟨rfl, List.mem_range.mp hk⟩

theorem connectionIds (h : Seats r) :
    r.connections.map (·.connection.id) =
      (List.range r.connections.length).map UInt64.ofNat := by
  rw [← h.clients, List.map_map]
  exact List.map_congr_left h.ids

theorem connectionIds_nodup (h : Seats r) (hlength : r.connections.length ≤ 2 ^ 64) :
    (r.connections.map (·.connection.id)).Nodup := by
  rw [h.connectionIds]
  refine List.pairwise_map.mpr (List.pairwise_lt_range.imp_of_mem fun hi hj hlt => ?_)
  have hlow := Nat.lt_of_lt_of_le (List.mem_range.mp hi) hlength
  have hhigh := Nat.lt_of_lt_of_le (List.mem_range.mp hj) hlength
  exact UInt64.ne_of_lt ((UInt64.ofNat_lt_iff_lt hlow hhigh).mpr hlt)

theorem of_eq (h : Seats r) (hconnections : r'.connections = r.connections)
    (hnames : r'.loop.NamesSockets)
    (hstage : Stage r.connections.length r'.acceptor r'.loop) : Seats r' where
  names := hnames
  wires := by
    rw [Relay.wires, hconnections]
    exact h.wires
  ids := by
    rw [hconnections]
    exact h.ids
  stage := by rwa [hconnections]

/-- A step of the relay goes on with the handshake, or lets it be. -/
theorem turn (h : Seats r) (hnumbers : r.loop.Numbers)
    (hregistered : EventLoop.admitted r.loop.replies = List.range r.loop.registry.clients.length)
    (hturn : Turn r a r') : Seats r' := by
  cases hturn with
  | @loop a loop hnot hloop =>
      have hnone : EventLoop.requesting a = [] := by
        cases a with
        | request => cases hnot
        | _ => rfl
      have hdecides := EventLoop.step_decides h.names hloop
      rw [hnone] at hdecides
      exact h.of_eq rfl hdecides.names (h.stage.decides hdecides)
  | cannotListen hphase | listens hphase =>
      obtain ⟨haccepted, hseated, hnone⟩ := h.stage.eq_of_accepting (.inl hphase)
      exact h.of_eq rfl h.names (.idle nofun haccepted hseated hnone)
  | stops hphase =>
      obtain ⟨haccepted, hseated, hnone⟩ := h.stage.eq_of_accepting (.inr hphase)
      exact h.of_eq rfl h.names (.idle nofun haccepted hseated hnone)
  | accepts hphase _ hloop =>
      have hdecides := EventLoop.step_decides h.names hloop
      exact h.of_eq rfl hdecides.names (h.stage.accepts hphase hdecides)
  | turnedDown hphase hlookup =>
      obtain ⟨rfl, haccepted, hreplies, hnone⟩ := h.stage.eq_of_lookup hphase hlookup
      exact h.of_eq rfl h.names (.turnedDown rfl haccepted hreplies hnone)
  | @serves k client c hphase hlookup hc =>
      obtain ⟨rfl, haccepted, hreplies, hnone⟩ := h.stage.eq_of_lookup hphase hlookup
      -- The reply may name any client. That it names the next one is in the loop's accounts.
      obtain rfl : client = r.connections.length := by
        rw [hreplies] at hregistered
        exact eq_of_admitted hregistered
      have hlength : (r.serve r.connections.length r.connections.length c.id).connections.length =
          r.connections.length + 1 := List.length_append
      refine ⟨h.names, ?_, fun s hs => ?_, ?_⟩
      · rw [serve_wires, h.wires, hlength, List.range_succ, List.map_append]
        rfl
      · rcases List.mem_append.mp hs with hs | hs
        · exact h.ids s hs
        · rw [List.mem_singleton.mp hs]
          exact hnumbers.id_eq hc
      · rw [hlength]
        exact .idle nofun haccepted (hreplies.trans (seated_succ _).symm) hnone
  | @connects i s l a x hs _ hstep =>
      have hlength : (r.connections.set i { s with connection := x.1 }).length =
          r.connections.length := List.length_set
      refine ⟨h.names, ?_, fun t ht => ?_, ?_⟩
      · refine (connect_wires hs).trans (h.wires.trans ?_)
        rw [← hlength]
        rfl
      · rcases List.mem_or_eq_of_mem_set ht with ht | rfl
        · exact h.ids t ht
        · exact (Connection.id_of_step hstep).trans (h.ids s (List.mem_of_getElem? hs))
      · change Stage (r.connections.set i { s with connection := x.1 }).length r.acceptor _
        rw [hlength]
        exact h.stage.decides (.of_eq h.names rfl rfl rfl)
  | dials | sends | halfCloses | closes | receives | ticks => exact h.of_eq rfl h.names h.stage

theorem create {network : Network} {settings : Settings}
    (h : Relay.create network settings = .ok r) : Seats r := by
  obtain ⟨loop, hloop, h⟩ := exists_of_bind_eq_ok h
  cases h
  rw [EventLoop.eq_of_create hloop]
  exact ⟨nofun, rfl, nofun, .idle nofun rfl rfl rfl⟩

end Seats

/-- What can be seen of the acceptor tells what it is doing. -/
def Publishes (p : Acceptor) : Prop :=
  match p.phase with
  | .starting => p.state = .pending
  | .accepting | .registering _ => ∃ a, p.state = .listening a
  | .ended => p.state = .closed ∨ p.state = .disabled

theorem publishes_turn (h : Publishes r.acceptor) (hturn : Turn r a r') :
    Publishes r'.acceptor ∧
      (r'.acceptor.state = r.acceptor.state ∨ r.acceptor.state.Next r'.acceptor.state) := by
  cases hturn with
  | cannotListen hphase =>
      rw [Publishes, hphase] at h
      rw [h]
      exact ⟨.inr rfl, .inr .disables⟩
  | @listens address hphase =>
      rw [Publishes, hphase] at h
      rw [h]
      exact ⟨⟨address, rfl⟩, .inr (.listens address)⟩
  | stops hphase | turnedDown hphase =>
      rw [Publishes, hphase] at h
      obtain ⟨address, h⟩ := h
      rw [h]
      exact ⟨.inl rfl, .inr (.closes address)⟩
  | accepts hphase | serves hphase =>
      rw [Publishes, hphase] at h
      exact ⟨h, .inl rfl⟩
  | loop | connects | dials | sends | halfCloses | closes | receives | ticks =>
      exact ⟨h, .inl rfl⟩

theorem run_seats {network : Network} {settings : Settings} {as : List Action} {start : Relay}
    (hcreate : Relay.create network settings = .ok start) (hrun : run as start = some r) :
    Seats r ∧ Publishes r.acceptor := by
  induction as using List.reverseRecOn generalizing r with
  | nil =>
      cases hrun
      refine ⟨.create hcreate, ?_⟩
      obtain ⟨loop, -, h⟩ := exists_of_bind_eq_ok hcreate
      cases h
      rfl
  | append_singleton as act ih =>
      obtain ⟨r₀, hrun₀, hstep⟩ := exists_of_run_concat hrun
      obtain ⟨hseats, hpublishes⟩ := ih hrun₀
      obtain ⟨_, _, _, -, hdelivers, -⟩ := run_delivers hcreate hrun₀
      obtain ⟨hloop, _, hreached⟩ := exists_loop_run hcreate hrun₀
      have hturn := turn_of_step hstep
      exact ⟨hseats.turn (.run hloop hreached) hdelivers.accounts.replies hturn,
        (publishes_turn hpublishes hturn).1⟩

theorem Moves.of_exited {entered : List Event} (h : Moves r entered r')
    (hexited : r.loop.phase = .exited) :
    r'.loop.phase = .exited ∧
      r'.loop.registry.clients.length = r.loop.registry.clients.length := by
  rcases h with hstays | ⟨_, -, -⟩ | ⟨-, -, -⟩
  · rcases hstays.loop with hkeeps | ⟨hgoing, -⟩ | ⟨_, _, hgoing, -⟩ |
      ⟨_, hphase, -, hclients⟩
    · exact ⟨hkeeps.exited hexited, by rw [hkeeps.clients]⟩
    · exact absurd hexited hgoing
    · exact absurd hexited hgoing
    · exact ⟨hphase, by rw [hclients, List.length_map]⟩
  · exact ⟨hexited, rfl⟩
  · exact ⟨hexited, List.length_modify _ _ _⟩

theorem exited_run {more : List Action} (hexited : r.loop.phase = .exited)
    (hmore : run more r = some r') :
    r'.loop.phase = .exited ∧
      r'.loop.registry.clients.length = r.loop.registry.clients.length := by
  induction more using List.reverseRecOn generalizing r' with
  | nil =>
      cases hmore
      exact ⟨hexited, rfl⟩
  | append_singleton more act ih =>
      obtain ⟨r₁, hmore₁, hstep⟩ := exists_of_run_concat hmore
      obtain ⟨hexited₁, hlength₁⟩ := ih hmore₁
      obtain ⟨hexited', hlength⟩ := (step_moves hstep).of_exited hexited₁
      exact ⟨hexited', hlength.trans hlength₁⟩

theorem run_append {as more : List Action} {start : Relay} (hrun : run as start = some r) :
    run (as ++ more) start = run more r := by
  induction as generalizing start with
  | nil =>
      cases hrun
      rfl
  | cons a as ih =>
      obtain ⟨r₁, hstep, hrun⟩ := Option.bind_eq_some_iff.mp hrun
      rw [List.cons_append, run, hstep]
      exact ih hrun

variable {network : Network} {settings : Settings} {as : List Action} {start : Relay}

theorem length_clients_of_run (hcreate : Relay.create network settings = .ok start)
    (hrun : run as start = some r) :
    r.connections.length ≤ r.loop.registry.clients.length ∧
      r.loop.registry.clients.length ≤ r.acceptor.accepted := by
  obtain ⟨_, _, _, -, hdelivers, -⟩ := run_delivers hcreate hrun
  have hlength := (run_seats hcreate hrun).1.stage.length_le
  rwa [hdelivers.accounts.replies, List.length_range] at hlength

theorem exists_client_of_run {s : Served} (hcreate : Relay.create network settings = .ok start)
    (hrun : run as start = some r) (hs : s ∈ r.connections) :
    (s.socket, some s.client) ∈ r.loop.replies ∧
      ∃ c : Client, r.loop.registry.clients[s.client]? = some c ∧ c.id = s.connection.id := by
  have hseats := (run_seats hcreate hrun).1
  obtain ⟨_, _, _, -, hdelivers, -⟩ := run_delivers hcreate hrun
  obtain ⟨hloop, _, hreached⟩ := exists_loop_run hcreate hrun
  have hnumbers : r.loop.Numbers := .run hloop hreached
  have hclient : s.client < r.loop.registry.clients.length :=
    Nat.lt_of_lt_of_le (hseats.socket_eq hs).2 (length_clients_of_run hcreate hrun).1
  refine ⟨hdelivers.wired.replied _ (mem_wires hs), _, List.getElem?_eq_getElem hclient, ?_⟩
  rw [hseats.ids s hs]
  exact hnumbers.id_eq (List.getElem?_eq_getElem hclient)

/-- A connection that is served once the loop has ended was accepted before, and nothing more
comes to its queue. -/
theorem closed_of_exited {more : List Action} {s : Served}
    (hcreate : Relay.create network settings = .ok start) (hrun : run as start = some r)
    (hexited : r.loop.phase = .exited) (hmore : run more r = some r') (hs : s ∈ r'.connections) :
    s.socket < r.acceptor.accepted ∧ ∃ c : Client,
      r'.loop.registry.clients[s.client]? = some c ∧ c.registered = false ∧
      c.inbox.senders = 0 := by
  have hrun' : run (as ++ more) start = some r' := (run_append hrun).trans hmore
  -- No client comes after the exit, so the connection is one of as many as were accepted by then.
  obtain ⟨hexited', hlength⟩ := exited_run hexited hmore
  obtain ⟨hsocket, hclient⟩ := (run_seats hcreate hrun').1.socket_eq hs
  have hserved := (length_clients_of_run hcreate hrun').1
  have haccepted := (length_clients_of_run hcreate hrun).2
  obtain ⟨-, c, hc, -⟩ := exists_client_of_run hcreate hrun' hs
  obtain ⟨hloop, _, hreached⟩ := exists_loop_run hcreate hrun'
  have hcloses := EventLoop.Closes.of_create hloop hreached
  have hleft := hcloses.exited hexited' _ c hc
  exact ⟨by omega, c, hc, hleft, hcloses.left _ c hc hleft⟩

/-- The sockets that are served are the first that were accepted, the one at position `k` with
the client at position `k`, which has the id `k`, and only after the loop has registered this
client. Not more than one socket is between being accepted and being served. Once the loop has
ended, whatever the relay still does, a socket that it accepts from then on is not served, and
the queue of one that is served is closed. What can be seen of the acceptor goes from pending
over listening to closed, or to disabled at once, and has come to one of these when the
acceptor has ended. -/
theorem handshake (hcreate : Relay.create network settings = .ok start)
    (hrun : run as start = some r) :
    let served := r.connections.length
    r.connections.map (·.socket) = List.range served ∧
    r.connections.map (·.client) = List.range served ∧
    r.connections.map (·.connection.id) = (List.range served).map UInt64.ofNat ∧
    (served ≤ 2 ^ 64 → (r.connections.map (·.connection.id)).Nodup) ∧
    (served ≤ r.acceptor.accepted ∧ r.acceptor.accepted ≤ served + 1 ∧
      r.acceptor.accepted ≤ r.sockets.length) ∧
    (r.acceptor.phase = .accepting → r.acceptor.accepted = served) ∧
    (∀ k, r.acceptor.phase = .registering k → k = served ∧
      r.acceptor.accepted = served + 1) ∧
    (∀ s ∈ r.connections, (s.socket, some s.client) ∈ r.loop.replies ∧
      ∃ c : Client, r.loop.registry.clients[s.client]? = some c ∧ c.id = s.connection.id) ∧
    (r.loop.phase = .exited → ∀ more r', run more r = some r' → ∀ s ∈ r'.connections,
      s.socket < r.acceptor.accepted ∧ ∃ c : Client,
        r'.loop.registry.clients[s.client]? = some c ∧ c.registered = false ∧
        c.inbox.senders = 0) ∧
    start.acceptor.state = .pending ∧
    (∀ a r', r.step a = some r' → r'.acceptor.state = r.acceptor.state ∨
      r.acceptor.state.Next r'.acceptor.state) ∧
    (r.acceptor.phase = .ended →
      r.acceptor.state = .closed ∨ r.acceptor.state = .disabled) := by
  intro served
  obtain ⟨hseats, hpublishes⟩ := run_seats hcreate hrun
  obtain ⟨_, _, _, -, hdelivers, -⟩ := run_delivers hcreate hrun
  obtain ⟨hserved, hregistered⟩ := length_clients_of_run hcreate hrun
  refine ⟨hseats.sockets, hseats.clients, hseats.connectionIds, hseats.connectionIds_nodup,
    ⟨Nat.le_trans hserved hregistered, hseats.stage.accepted_le,
      hdelivers.wired.accepts.accepted⟩,
    fun hphase => (hseats.stage.eq_of_accepting (.inr hphase)).1,
    fun k hphase => hseats.stage.of_registering hphase,
    fun s hs => exists_client_of_run hcreate hrun hs, ?_, ?_, ?_, ?_⟩
  · intro hexited more r' hmore s hs
    exact closed_of_exited hcreate hrun hexited hmore hs
  · obtain ⟨loop, -, hstart⟩ := exists_of_bind_eq_ok hcreate
    cases hstart
    rfl
  · intro a r' hstep
    exact (publishes_turn hpublishes (turn_of_step hstep)).2
  · intro hended
    rwa [Publishes, hended] at hpublishes

/-- The loop ends while the acceptor has still to learn that the second socket got its client. It
is served, but the third one, which connects after that, is not. -/
theorem handshake_over_exit :
    let before : List Action := [.acceptor .start, .dial, .dial, .acceptor .accept,
      .loop .takeRequest, .acceptor .learn, .acceptor .accept, .loop .takeRequest, .loop .stop,
      .loop .quit]
    let after : List Action := [.acceptor .learn, .dial, .acceptor .accept, .acceptor .learn]
    ∃ start r r', Relay.create {} .default = .ok start ∧ run before start = some r ∧
      run (before ++ after) start = some r' ∧ r.loop.phase = .exited ∧
      r.connections.length = 1 ∧ r.acceptor.accepted = 2 ∧
      r'.connections.length = 2 ∧ r'.acceptor.accepted = 3 ∧ r'.acceptor.phase = .ended ∧
      r'.connections.map (·.socket) = [0, 1] ∧ r'.connections.map (·.connection.id) = [0, 1] ∧
      (r'.acceptor.state = .closed ∨ r'.acceptor.state = .disabled) ∧
      ∀ s ∈ r'.connections, s.socket < 2 ∧ ∃ c : Client,
        r'.loop.registry.clients[s.client]? = some c ∧ c.registered = false ∧
        c.inbox.senders = 0 := by
  intro before after
  obtain ⟨start, hcreate, hreached, hended⟩ :
      ∃ start, Relay.create {} .default = .ok start ∧
      ((run before start).any fun r => r.loop.phase = .exited ∧ r.connections.length = 1 ∧
        r.acceptor.accepted = 2) = true ∧
      ((run (before ++ after) start).any fun r => r.connections.length = 2 ∧
        r.acceptor.accepted = 3 ∧ r.acceptor.phase = .ended) = true :=
    ⟨_, rfl, by decide +kernel, by decide +kernel⟩
  obtain ⟨r, hrun, hreached⟩ := (Option.any_eq_true _ _).mp hreached
  obtain ⟨hexited, hserved, haccepted⟩ := of_decide_eq_true hreached
  obtain ⟨r', hrun', hended⟩ := (Option.any_eq_true _ _).mp hended
  obtain ⟨hserved', haccepted', hphase⟩ := of_decide_eq_true hended
  obtain ⟨-, -, -, -, -, -, -, -, hlate, -⟩ := handshake hcreate hrun
  obtain ⟨hsockets, -, hids, -, -, -, -, -, -, -, -, hstate⟩ := handshake hcreate hrun'
  rw [hserved'] at hsockets hids
  have hmore : run after r = some r' := (run_append hrun).symm.trans hrun'
  rw [haccepted] at hlate
  exact ⟨start, r, r', hcreate, hrun, hrun', hexited, hserved, haccepted, hserved', haccepted',
    hphase, hsockets, hids, hstate hphase, hlate hexited after r' hmore⟩

end Relay

end HookRelay
