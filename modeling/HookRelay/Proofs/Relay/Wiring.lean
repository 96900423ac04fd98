import Mathlib.Data.List.ReduceOption
import HookRelay.Proofs.Connection.Writing
import HookRelay.Proofs.EventLoop.Accounts
import HookRelay.Proofs.EventLoop.Clients
import HookRelay.Proofs.Relay.Moves
/-!
Which socket belongs to which client. No two connections share a socket or a client,
and nothing is written on a socket that has no connection. So what a connection has
written is what it has taken out of the queue of its own client, and what that client
still has to get is in the queue.
-/

namespace HookRelay.Relay

/-- The sockets of the connections with their clients. -/
def wires (r : Relay) : List (Nat × Nat) := r.connections.map fun s => (s.socket, s.client)

structure Wired (r : Relay) : Prop where
  accepts : Accepts r
  ordered : r.wires.Pairwise (·.1 < ·.1)
  handed : ∀ w ∈ r.wires, w.1 < r.handed
  replied : ∀ w ∈ r.wires, (w.1, some w.2) ∈ r.loop.replies
  unwritten : ∀ k, (∀ w ∈ r.wires, w.1 ≠ k) → r.written k = []

/-- The relay delivers what the books of its loop show: each connection has begun to
write what has been taken out of its client's queue, besides heartbeats, and nothing
has been taken out of the queue of a client that has no connection. -/
structure Delivers (sent pending : List Event) (joined : List Nat) (r : Relay) : Prop where
  wired : Wired r
  accounts : r.loop.Accounts sent pending joined
  waits : ∀ k < joined.length, (∀ w ∈ r.wires, w.2 ≠ k) →
    EventLoop.Serves sent joined r.loop k []
  serves : ∀ s ∈ r.connections, ∃ begun : List (Option Message),
    s.connection.writer.Wrote (begun.map Connection.orPing) (r.written s.socket) ∧
      EventLoop.Serves sent joined r.loop s.client begun.reduceOption

variable {sent pending entered : List Event} {joined : List Nat} {r r' : Relay}

theorem mem_wires {s : Served} (h : s ∈ r.connections) : (s.socket, s.client) ∈ r.wires :=
  List.mem_map_of_mem h

theorem Stays.wires (h : Stays r entered r') : r'.wires = r.wires := by
  rw [Relay.wires, h.connections, Relay.wires]

theorem Stays.wired (h : Stays r entered r') (hwired : Wired r) : Wired r' := by
  obtain ⟨haccepts, hhanded⟩ := h.accepts hwired.accepts
  refine ⟨haccepts, ?_, fun w hw => ?_, fun w hw => ?_, fun k hk => ?_⟩
  · rw [h.wires]
    exact hwired.ordered
  · rw [h.wires] at hw
    exact Nat.lt_of_lt_of_le (hwired.handed w hw) hhanded
  · rw [h.wires] at hw
    exact h.loop.replies_prefix.subset (hwired.replied w hw)
  · rw [h.wires] at hk
    rw [h.written]
    exact hwired.unwritten k hk

theorem serve_wires (k client : Nat) (id : UInt64) :
    (r.serve k client id).wires = r.wires ++ [(k, client)] := by
  simp [wires, serve]

theorem serve_wired {k client : Nat} {id : UInt64} (hphase : r.acceptor.phase = .registering k)
    (hreply : (k, some client) ∈ r.loop.replies) (h : Wired r) :
    Wired (r.serve k client id) := by
  have hhanded : r.handed = k := by rw [handed, hphase]
  have hnext : (r.serve k client id).handed = k + 1 := h.accepts.registering k hphase
  refine ⟨⟨h.accepts.accepted, fun j hj => by cases hj⟩, ?_, ?_, ?_, fun j hj => ?_⟩
  · rw [serve_wires, List.pairwise_append]
    refine ⟨h.ordered, List.pairwise_singleton _ _, fun w hw w' hw' => ?_⟩
    rw [List.mem_singleton.mp hw', ← hhanded]
    exact h.handed w hw
  · intro w hw
    rw [hnext]
    rw [serve_wires, List.mem_append, List.mem_singleton] at hw
    rcases hw with hw | rfl
    · have hlt := h.handed w hw
      omega
    · exact Nat.lt_succ_self k
  · intro w hw
    rw [serve_wires, List.mem_append, List.mem_singleton] at hw
    rcases hw with hw | rfl
    · exact h.replied w hw
    · exact hreply
  · refine h.unwritten j fun w hw => hj w ?_
    rw [serve_wires]
    exact List.mem_append_left _ hw

theorem create_delivers {n : Network} {settings : Settings}
    (h : Relay.create n settings = .ok r) : Delivers [] [] [] r := by
  obtain ⟨loop, hloop, h⟩ := exists_of_bind_eq_ok h
  cases h
  refine ⟨⟨⟨Nat.le_refl _, fun k hk => by cases hk⟩, .nil, ?_, ?_, fun k _ => rfl⟩,
    EventLoop.create_accounts hloop, fun k hk => ?_, ?_⟩
  · intro w hw
    cases hw
  · intro w hw
    cases hw
  · cases hk
  · intro s hs
    cases hs

theorem Delivers.ne_of_ne {i j : Nat} {s t : Served} (h : Delivers sent pending joined r)
    (hs : r.connections[i]? = some s) (ht : r.connections[j]? = some t) (hij : i ≠ j) :
    s.socket ≠ t.socket ∧ s.client ≠ t.client := by
  have hsocket : s.socket ≠ t.socket := by
    obtain ⟨hi, rfl⟩ := List.getElem?_eq_some_iff.mp hs
    obtain ⟨hj, rfl⟩ := List.getElem?_eq_some_iff.mp ht
    have hordered := List.pairwise_iff_getElem.mp (List.pairwise_map.mp h.wired.ordered)
    rcases Nat.lt_or_gt_of_ne hij with hlt | hlt
    · exact Nat.ne_of_lt (hordered i j hi hj hlt)
    · exact Nat.ne_of_gt (hordered j i hj hi hlt)
  refine ⟨hsocket, fun hclient => hsocket ?_⟩
  have hreply := h.wired.replied _ (mem_wires (List.mem_of_getElem? ht))
  rw [← hclient] at hreply
  exact h.accounts.socket_eq (h.wired.replied _ (mem_wires (List.mem_of_getElem? hs))) hreply

theorem Delivers.eq_of_client_eq {s t : Served} (h : Delivers sent pending joined r)
    (hs : s ∈ r.connections) (ht : t ∈ r.connections) (hclient : s.client = t.client) :
    s = t := by
  obtain ⟨i, hi⟩ := List.mem_iff_getElem?.mp hs
  obtain ⟨j, hj⟩ := List.mem_iff_getElem?.mp ht
  by_cases hij : i = j
  · subst hij
    exact Option.some.inj (hi.symm.trans hj)
  · exact absurd hclient (h.ne_of_ne hi hj hij).2

theorem Wired.exists_socket {s : Served} (h : Wired r) (hs : s ∈ r.connections) :
    ∃ socket, r.sockets[s.socket]? = some socket ∧
      r.written s.socket = socket.outbound.bytes := by
  have hlt : s.socket < r.sockets.length := by
    have hhanded := h.handed _ (mem_wires hs)
    exact Nat.lt_of_lt_of_le hhanded (Nat.le_trans h.accepts.handed_le h.accepts.accepted)
  refine ⟨_, List.getElem?_eq_getElem hlt, ?_⟩
  rw [written, List.getElem?_map, List.getElem?_eq_getElem hlt]
  rfl

theorem Stays.delivers (h : Stays r entered r') (hdelivers : Delivers sent pending joined r) :
    ∃ sent' pending' joined', sent' ++ pending' = sent ++ pending ++ entered ∧
      Delivers sent' pending' joined' r' ∧
      (joined' = joined ∨ joined' = joined ++ [sent.length]) := by
  obtain ⟨sent', pending', joined', hevents, haccounts, hadvances⟩ :=
    hdelivers.accounts.moves h.loop
  refine ⟨sent', pending', joined', hevents,
    ⟨h.wired hdelivers.wired, haccounts, fun k hk hfree => ?_, fun s hs => ?_⟩, ?_⟩
  · rw [h.wires] at hfree
    rcases Nat.lt_or_ge k joined.length with hlt | hge
    · exact hadvances.serves k [] (hdelivers.waits k hlt hfree)
    · rcases hadvances.joins with rfl | ⟨rfl, hjoins⟩
      · exact absurd hk (Nat.not_lt.mpr hge)
      · rw [List.length_append, List.length_singleton] at hk
        rwa [show k = joined.length by omega]
  · rw [h.connections] at hs
    obtain ⟨begun, hwrote, hserves⟩ := hdelivers.serves s hs
    rw [h.written]
    exact ⟨begun, hwrote, hadvances.serves _ _ hserves⟩
  · rcases hadvances.joins with rfl | ⟨rfl, -⟩
    · exact .inl rfl
    · exact .inr rfl

theorem serve_delivers {k client : Nat} {id : UInt64} (hphase : r.acceptor.phase = .registering k)
    (hreply : (k, some client) ∈ r.loop.replies) (h : Delivers sent pending joined r) :
    Delivers sent pending joined (r.serve k client id) := by
  have hsocket : ∀ w ∈ r.wires, w.1 ≠ k := by
    intro w hw hk
    have hlt := h.wired.handed w hw
    rw [handed, hphase, hk] at hlt
    exact Nat.lt_irrefl k hlt
  have hclient : ∀ w ∈ r.wires, w.2 ≠ client := by
    rintro w hw rfl
    exact hsocket w hw (h.accounts.socket_eq (h.wired.replied w hw) hreply)
  have hlt : client < joined.length := by
    have hmem : client ∈ EventLoop.admitted r.loop.replies :=
      List.mem_filterMap.mpr ⟨_, hreply, rfl⟩
    rw [h.accounts.replies, List.mem_range] at hmem
    rwa [h.accounts.joined]
  refine ⟨serve_wired hphase hreply h.wired, h.accounts, fun j hj hfree => ?_, fun s hs => ?_⟩
  · refine h.waits j hj fun w hw => hfree w ?_
    rw [serve_wires]
    exact List.mem_append_left _ hw
  · rcases List.mem_append.mp hs with hs | hs
    · exact h.serves s hs
    · rw [List.mem_singleton.mp hs]
      refine ⟨[], ?_, h.waits client hlt hclient⟩
      change Writer.starting.Wrote [] (r.written k)
      rw [h.wired.unwritten k hsocket]
      exact .starting .nil

section Connection

variable {i : Nat} {s : Served} {l : Link} {x : Connection × Link} {more : List (Option Message)}

theorem link?_eq_some_iff :
    r.link? s = some l ↔ ∃ x c, r.sockets[s.socket]? = some x ∧
      r.loop.registry.clients[s.client]? = some c ∧ l = r.loop.linkOf x c := by
  constructor
  · intro h
    obtain ⟨x, hx, h⟩ := Option.bind_eq_some_iff.mp h
    obtain ⟨c, hc, h⟩ := Option.bind_eq_some_iff.mp h
    cases h
    exact ⟨x, c, hx, hc, rfl⟩
  · rintro ⟨x, c, hx, hc, rfl⟩
    rw [link?, hx, Option.bind_eq_bind, Option.bind_some, hc]
    rfl

theorem connect_wires (hs : r.connections[i]? = some s) : (r.connect i s x).wires = r.wires := by
  apply List.ext_getElem?
  intro j
  change ((r.connections.set i { s with connection := x.1 }).map _)[j]? = _
  rw [wires, List.getElem?_map, List.getElem?_map, List.getElem?_set]
  split
  · next hij =>
    subst hij
    rw [hs, if_pos (List.getElem?_eq_some_iff.mp hs).1]
    rfl
  · rfl

theorem connect_written (hl : r.link? s = some l) (k : Nat) :
    (r.connect i s x).written k =
      if k = s.socket then x.2.socket.outbound.bytes else r.written k := by
  obtain ⟨_, _, hsocket, -, rfl⟩ := link?_eq_some_iff.mp hl
  change ((r.sockets.set s.socket x.2.socket).map (·.outbound.bytes))[k]?.getD [] = _
  rw [written, List.getElem?_map, List.getElem?_map, List.getElem?_set]
  by_cases hk : k = s.socket
  · rw [if_pos hk.symm, if_pos hk, if_pos (List.getElem?_eq_some_iff.mp hsocket).1]
    rfl
  · rw [if_neg (Ne.symm hk), if_neg hk]

theorem connect_serves_of_ne {k : Nat} {taken : List Message} (hk : k ≠ s.client)
    (h : EventLoop.Serves sent joined r.loop k taken) :
    EventLoop.Serves sent joined (r.connect i s x).loop k taken := by
  obtain ⟨c, a, hc, ha, hfollows⟩ := h
  refine ⟨c, a, ?_, ha, hfollows⟩
  change (r.loop.registry.clients.modify s.client _)[k]? = _
  rw [List.getElem?_modify_ne _ _ (Ne.symm hk), hc]

theorem connect_serves {taken : List Message} (hl : r.link? s = some l)
    (hwrites : s.connection.Writes l more x.1 x.2)
    (h : EventLoop.Serves sent joined r.loop s.client taken) :
    EventLoop.Serves sent joined (r.connect i s x).loop s.client
      (taken ++ more.reduceOption) := by
  obtain ⟨_, c, -, hc, rfl⟩ := link?_eq_some_iff.mp hl
  obtain ⟨c', a, hc', ha, hfollows⟩ := h
  obtain rfl := Option.some.inj (hc.symm.trans hc')
  refine ⟨_, a, ?_, ha, hfollows.take x.2.stopped hwrites.inbox⟩
  change (r.loop.registry.clients.modify s.client _)[s.client]? = _
  rw [List.getElem?_modify_eq, hc]
  rfl

theorem connect_wired (hs : r.connections[i]? = some s) (hl : r.link? s = some l)
    (h : Wired r) : Wired (r.connect i s x) := by
  have hwires : (r.connect i s x).wires = r.wires := connect_wires hs
  refine ⟨⟨?_, h.accepts.registering⟩, ?_, ?_, ?_, fun k hk => ?_⟩
  · change _ ≤ (r.sockets.set s.socket x.2.socket).length
    rw [List.length_set]
    exact h.accepts.accepted
  · rw [hwires]
    exact h.ordered
  · rw [hwires]
    exact h.handed
  · rw [hwires]
    exact h.replied
  · rw [hwires] at hk
    have hne : k ≠ s.socket := (hk _ (mem_wires (List.mem_of_getElem? hs))).symm
    rw [connect_written hl, if_neg hne]
    exact h.unwritten k hk

theorem connect_delivers (hs : r.connections[i]? = some s) (hl : r.link? s = some l)
    (hwrites : s.connection.Writes l more x.1 x.2) (h : Delivers sent pending joined r) :
    Delivers sent pending joined (r.connect i s x) := by
  have haccounts := h.accounts
  refine ⟨connect_wired hs hl h.wired, ⟨haccounts.counter, haccounts.pending, ?_, ?_⟩,
    fun k hk hfree => ?_, fun t ht => ?_⟩
  · change _ = (r.loop.registry.clients.modify s.client _).length
    rw [List.length_modify, haccounts.joined]
  · change _ = List.range (r.loop.registry.clients.modify s.client _).length
    rw [List.length_modify]
    exact haccounts.replies
  · rw [connect_wires hs] at hfree
    have hne : k ≠ s.client := (hfree _ (mem_wires (List.mem_of_getElem? hs))).symm
    exact connect_serves_of_ne hne (h.waits k hk hfree)
  · obtain ⟨j, hj⟩ := List.mem_iff_getElem?.mp ht
    change (r.connections.set i { s with connection := x.1 })[j]? = _ at hj
    rw [List.getElem?_set] at hj
    split at hj
    · -- The connection that took the step has written on.
      split at hj
      · obtain rfl := Option.some.inj hj
        obtain ⟨begun, hwrote, hserves⟩ := h.serves s (List.mem_of_getElem? hs)
        obtain ⟨_, _, hsocket, -, rfl⟩ := link?_eq_some_iff.mp hl
        refine ⟨begun ++ more, ?_, ?_⟩
        · rw [connect_written hl, if_pos rfl, List.map_append]
          refine hwrites.wrote _ ?_
          rw [written, List.getElem?_map, hsocket] at hwrote
          exact hwrote
        · rw [List.reduceOption_append]
          exact connect_serves hl hwrites hserves
      · cases hj
    · next hij =>
      obtain ⟨hsocket, hclient⟩ := h.ne_of_ne hs hj hij
      obtain ⟨begun, hwrote, hserves⟩ := h.serves t (List.mem_of_getElem? hj)
      refine ⟨begun, ?_, connect_serves_of_ne (Ne.symm hclient) hserves⟩
      rwa [connect_written hl, if_neg (Ne.symm hsocket)]

end Connection

/-- No step of the relay breaks the delivery. -/
theorem Delivers.moves (h : Delivers sent pending joined r) (hmoves : Moves r entered r') :
    ∃ sent' pending' joined', sent' ++ pending' = sent ++ pending ++ entered ∧
      Delivers sent' pending' joined' r' ∧
      (joined' = joined ∨ joined' = joined ++ [sent.length]) := by
  rcases hmoves with hstays | ⟨id, hphase, hreply⟩ | ⟨hs, hl, hstep⟩
  · exact hstays.delivers h
  · exact ⟨sent, pending, joined, (List.append_nil _).symm, serve_delivers hphase hreply h,
      .inl rfl⟩
  · obtain ⟨more, hwrites⟩ := Connection.step_writes hstep
    exact ⟨sent, pending, joined, (List.append_nil _).symm, connect_delivers hs hl hwrites h,
      .inl rfl⟩

end HookRelay.Relay
