import HookRelay.Proofs.EventLoop.Moves
import HookRelay.Proofs.Relay.Turns

namespace HookRelay.Relay

/-- The bytes that the relay has put on the socket at position `k`. -/
def written (r : Relay) (k : Nat) : List UInt8 :=
  (r.sockets.map (·.outbound.bytes))[k]?.getD []

/-- The event that the chat intake accepts at a step. -/
def entering (a : Action) (r : Relay) : List Event :=
  match a with
  | .loop a => r.loop.entering a
  | _ => []

/-- How many sockets the acceptor is done with. -/
def handed (r : Relay) : Nat :=
  match r.acceptor.phase with
  | .registering k => k
  | _ => r.acceptor.accepted

/-- The acceptor takes the sockets in their order. -/
structure Accepts (r : Relay) : Prop where
  accepted : r.acceptor.accepted ≤ r.sockets.length
  registering : ∀ k, r.acceptor.phase = .registering k → r.acceptor.accepted = k + 1

/-- The relay after its `i`-th connection, which is `s`, has become `x` with all that it
shares. -/
def connect (r : Relay) (i : Nat) (s : Served) (x : Connection × Link) : Relay :=
  { r with connections := r.connections.set i { s with connection := x.1 } }.putLink s x.2

/-- A step that concerns no connection. -/
structure Stays (r : Relay) (entered : List Event) (r' : Relay) : Prop where
  loop : r.loop.Moves entered r'.loop
  connections : r'.connections = r.connections
  written : ∀ k, r'.written k = r.written k
  accepts : Accepts r → Accepts r' ∧ r.handed ≤ r'.handed

/-- All that a step at which the chat intake accepts `entered` can do. -/
inductive Moves (r : Relay) : List Event → Relay → Prop
  | stays {entered : List Event} {r' : Relay} : Stays r entered r' → Moves r entered r'
  | serves {k client : Nat} (id : UInt64) :
      r.acceptor.phase = .registering k → (k, some client) ∈ r.loop.replies →
      Moves r [] (r.serve k client id)
  | connects {i : Nat} {s : Served} {l : Link} {a : Connection.Action} {x : Connection × Link} :
      r.connections[i]? = some s → r.link? s = some l →
      Connection.step r.limits r.now a s.connection l = some x →
      Moves r [] (r.connect i s x)

variable {r r' : Relay} {a : Action}

theorem Accepts.handed_le (h : Accepts r) : r.handed ≤ r.acceptor.accepted := by
  unfold handed
  split
  · next k hphase =>
    rw [h.registering k hphase]
    exact Nat.le_succ k
  · exact Nat.le_refl _

theorem written_of_map_eq
    (h : r'.sockets.map (·.outbound.bytes) = r.sockets.map (·.outbound.bytes)) (k : Nat) :
    r'.written k = r.written k := by
  rw [written, h, written]

theorem Stays.of_sockets {sockets : List Socket} {now : Nat}
    (hlength : r.sockets.length ≤ sockets.length)
    (hwritten : ∀ k, { r with sockets, now }.written k = r.written k) :
    Stays r [] { r with sockets, now } where
  loop := .keeps .refl
  connections := rfl
  written := hwritten
  accepts h := ⟨⟨Nat.le_trans h.accepted hlength, h.registering⟩, Nat.le_refl _⟩

theorem modifySocket_stays {f : Socket → Socket} (k : Nat)
    (hf : ∀ s, (f s).outbound.bytes = s.outbound.bytes) : Stays r [] (r.modifySocket k f) := by
  have hmap :
      (r.sockets.modify k f).map (·.outbound.bytes) = r.sockets.map (·.outbound.bytes) := by
    apply List.ext_getElem?
    intro j
    rw [List.getElem?_map, List.getElem?_map, List.getElem?_modify]
    rcases r.sockets[j]? with _ | s
    · rfl
    · by_cases hk : k = j <;> simp [hk, hf]
  exact .of_sockets (Nat.le_of_eq (List.length_modify _ _ _).symm) (written_of_map_eq hmap)

theorem dial_stays : Stays r [] { r with sockets := r.sockets ++ [{ window := r.window }] } := by
  refine .of_sockets (by simp) fun k => ?_
  rw [written, written, List.map_append, List.getElem?_append]
  split
  · rfl
  · next hk =>
    rw [List.getElem?_eq_none (Nat.le_of_not_lt hk)]
    rcases k - (r.sockets.map (·.outbound.bytes)).length with _ | _ <;> rfl

theorem endAcceptor_stays {l : EventLoop} (state : ListenerState) (first : Nat)
    (h : r.loop.Keeps [] l) : Stays r [] ({ r with loop := l }.endAcceptor state first) where
  loop := .keeps ⟨h.counter, h.clients, h.items, h.exited, h.replies⟩
  connections := rfl
  written := by
    refine written_of_map_eq ?_
    change (r.sockets.take first ++ (r.sockets.drop first).map Socket.hangUp).map
      (·.outbound.bytes) = _
    rw [List.map_append, List.map_map]
    change _ ++ (r.sockets.drop first).map (·.outbound.bytes) = _
    rw [← List.map_append, List.take_append_drop]
  accepts h := by
    refine ⟨⟨?_, fun k hphase => by cases hphase⟩, h.handed_le⟩
    have haccepted := h.accepted
    simp only [endAcceptor, List.length_append, List.length_take, List.length_map,
      List.length_drop]
    omega

/-- Whatever happens to the relay is one of these. -/
theorem step_moves (h : r.step a = some r') : Moves r (r.entering a) r' := by
  cases turn_of_step h with
  | loop _ hloop =>
      exact .stays ⟨EventLoop.step_moves hloop, rfl, fun k => rfl,
        fun haccepts => ⟨⟨haccepts.accepted, haccepts.registering⟩, Nat.le_refl _⟩⟩
  | cannotListen =>
      exact .stays (endAcceptor_stays _ _ (.of_eq rfl rfl (List.append_nil _).symm id rfl))
  | listens =>
      refine .stays ⟨.keeps .refl, rfl, fun k => rfl,
        fun haccepts => ⟨⟨haccepts.accepted, ?_⟩, ?_⟩⟩
      · intro k hphase
        cases hphase
      · exact haccepts.handed_le
  | stops | turnedDown => exact .stays (endAcceptor_stays _ _ .refl)
  | accepts _ hlt hloop =>
      refine .stays ⟨EventLoop.step_moves hloop, rfl, fun k => rfl,
        fun haccepts => ⟨⟨hlt, ?_⟩, ?_⟩⟩
      · rintro k ⟨⟩
        rfl
      · exact haccepts.handed_le
  | serves hphase hlookup =>
      obtain ⟨_, _, hreplies, -⟩ := List.lookup_eq_some_iff.mp hlookup
      exact .serves _ hphase (by simp [hreplies])
  | connects hs hl hstep => exact .connects hs hl hstep
  | dials => exact .stays dial_stays
  | sends | halfCloses | closes | receives => exact .stays (modifySocket_stays _ fun s => rfl)
  | ticks => exact .stays (.of_sockets (Nat.le_refl _) fun k => rfl)

end HookRelay.Relay
