import Mathlib.Algebra.Order.Ring.Int
import Mathlib.Data.List.Induction
import Mathlib.Data.List.Infix
import HookRelay.Proofs.Relay.Wiring

namespace HookRelay.Relay

/-- The events that the chat intake accepts in the course of some steps. -/
def accepted : List Action → Relay → List Event
  | [], _ => []
  | a :: as, r => (r.step a).elim [] fun r' => r.entering a ++ accepted as r'

/-- In the course of these steps the client at position `k` is registered, at a moment
at which the next event would get the number `a`. -/
def RegisteredAt (as : List Action) (start : Relay) (k a : Nat) : Prop :=
  ∃ before act after joining joined, as = before ++ act :: after ∧
    run before start = some joining ∧ joining.step act = some joined ∧
    joining.loop.registry.clients.length = k ∧ joined.loop.registry.clients.length = k + 1 ∧
    joining.loop.counter = Int64.ofNat a

/-- The connection has nothing to write: its client is registered, the client's queue is
empty, and no frame is begun. -/
def IsCaughtUp (s : Served) (r : Relay) : Prop :=
  ∃ beat c, s.connection.writer = .idle beat ∧ r.loop.registry.clients[s.client]? = some c ∧
    c.registered = true ∧ c.inbox.receiver ≠ .gone ∧ c.inbox.items = []

variable {as : List Action} {act : Action} {start r r' : Relay}

theorem exists_of_run_concat (h : run (as ++ [act]) start = some r') :
    ∃ r, run as start = some r ∧ r.step act = some r' := by
  induction as generalizing start with
  | nil =>
      obtain ⟨r, hstep, hr⟩ := Option.bind_eq_some_iff.mp h
      cases hr
      exact ⟨start, rfl, hstep⟩
  | cons a as ih =>
      obtain ⟨r, hstep, hrun⟩ := Option.bind_eq_some_iff.mp h
      obtain ⟨r₁, hr₁, hlast⟩ := ih hrun
      refine ⟨r₁, ?_, hlast⟩
      rw [run, hstep]
      exact hr₁

theorem accepted_concat (hrun : run as start = some r) (hstep : r.step act = some r') :
    accepted (as ++ [act]) start = accepted as start ++ r.entering act := by
  induction as generalizing start with
  | nil =>
      cases hrun
      simp [accepted, hstep]
  | cons a as ih =>
      obtain ⟨r₁, hr₁, hrun⟩ := Option.bind_eq_some_iff.mp hrun
      simp [accepted, hr₁, ih hrun]

theorem RegisteredAt.concat {k a : Nat} (h : RegisteredAt as start k a) (act : Action) :
    RegisteredAt (as ++ [act]) start k a := by
  obtain ⟨before, act', after, joining, joined, rfl, hrest⟩ := h
  exact ⟨before, act', after ++ [act], joining, joined, by simp, hrest⟩

/-- Over every run the relay delivers the events that the chat intake has accepted. -/
theorem run_delivers {n : Network} {settings : Settings}
    (hcreate : Relay.create n settings = .ok start) (hrun : run as start = some r) :
    ∃ sent pending joined, accepted as start = sent ++ pending ∧
      Delivers sent pending joined r ∧
      ∀ k a, joined[k]? = some a → RegisteredAt as start k a := by
  induction as using List.reverseRecOn generalizing r with
  | nil =>
      cases hrun
      exact ⟨[], [], [], rfl, create_delivers hcreate, by simp⟩
  | append_singleton as act ih =>
      obtain ⟨r₀, hrun₀, hstep⟩ := exists_of_run_concat hrun
      obtain ⟨sent, pending, joined, haccepted, hdelivers, hjoined⟩ := ih hrun₀
      obtain ⟨sent', pending', joined', hevents, hdelivers', hjoins⟩ :=
        hdelivers.moves (step_moves hstep)
      refine ⟨sent', pending', joined', ?_, hdelivers', fun k a ha => ?_⟩
      · rw [accepted_concat hrun₀ hstep, haccepted, hevents]
      · rcases hjoins with rfl | rfl
        · exact (hjoined k a ha).concat act
        · rw [List.getElem?_append] at ha
          split at ha
          · exact (hjoined k a ha).concat act
          · next hk =>
            obtain ⟨hindex, ha⟩ := List.getElem?_eq_some_iff.mp ha
            rw [List.length_singleton] at hindex
            obtain rfl : k = joined.length := by omega
            have hlen := hdelivers'.accounts.joined
            rw [List.length_append, List.length_singleton] at hlen
            refine ⟨as, act, [], r₀, r, rfl, hrun₀, hstep, hdelivers.accounts.joined.symm,
              hlen.symm, ?_⟩
            have hsent : sent.length = a := by simpa using ha
            rw [hdelivers.accounts.counter, hsent]

theorem id_nonneg_of_mem_numbered {es : List Event} (hcount : es.length < 2 ^ 63) {m : Message}
    (h : m ∈ numbered es) : 0 ≤ m.id := by
  obtain ⟨i, hi, hm⟩ := List.mem_mapIdx.mp h
  rw [← hm, Int64.le_iff_toInt_le]
  change _ ≤ (Int64.ofNat i).toInt
  rw [Int64.toInt_ofNat_of_lt (by omega)]
  exact Int.natCast_nonneg i

theorem filter_map_orPing {begun : List (Option Message)}
    (h : ∀ m ∈ begun.reduceOption, 0 ≤ m.id) :
    (begun.map Connection.orPing).filter (·.id ≠ -1) = begun.reduceOption := by
  induction begun with
  | nil => rfl
  | cons m begun ih =>
      rcases m with _ | m
      · exact ih h
      · rw [List.reduceOption_cons_of_some] at h ⊢
        have hid : m.id ≠ -1 := by
          intro hid
          have hm := h m List.mem_cons_self
          rw [hid] at hm
          exact absurd hm (by decide)
        have hrest := ih fun m' hm' => h m' (List.mem_cons_of_mem m hm')
        change (m :: begun.map Connection.orPing).filter (·.id ≠ -1) = _
        rw [List.filter_cons, hrest, if_pos (decide_eq_true hid)]

theorem exists_take_drop_of_prefix {log ms : List Message} {a b : Nat} (hab : a ≤ b)
    (hb : b ≤ log.length) (h : ms <+: (log.take b).drop a) :
    ∃ b', a ≤ b' ∧ b' ≤ b ∧ ms = (log.take b').drop a := by
  have hlen := h.length_le
  rw [List.length_drop, List.length_take, Nat.min_eq_left hb] at hlen
  refine ⟨a + ms.length, Nat.le_add_right _ _, by omega, ?_⟩
  have hms := List.prefix_iff_eq_take.mp h
  rw [List.take_drop, List.take_take, Nat.min_eq_left (by omega)] at hms
  exact hms

theorem Delivers.received {sent pending : List Event} {joined : List Nat} {s : Served}
    (h : Delivers sent pending joined r) (hcount : sent.length < 2 ^ 63)
    (hs : s ∈ r.connections) :
    ∃ a b, joined[s.client]? = some a ∧ a ≤ b ∧ b ≤ sent.length ∧
      (Wire.received (r.written s.socket)).1.filter (·.id ≠ -1) =
        ((numbered sent).take b).drop a ∧
      (∀ m ∈ (Wire.received (r.written s.socket)).1, m = .ping ∨ 0 ≤ m.id) ∧
      (r.IsCaughtUp s → b = sent.length) := by
  obtain ⟨begun, hwrote, c, a, hc, ha, b, hab, hb, hall, htaken, hitems⟩ := h.serves s hs
  -- The whole frames on the socket are those of the first messages that the writer has begun.
  obtain ⟨whole, hwhole, hreceived⟩ := List.prefix_map_iff.mp hwrote.received
  obtain ⟨b', hab', hb', hmessages⟩ :=
    exists_take_drop_of_prefix hab hb (hwhole.reduceOption.trans htaken)
  have hnonneg : ∀ m ∈ whole.reduceOption, 0 ≤ m.id := by
    intro m hm
    rw [hmessages] at hm
    exact id_nonneg_of_mem_numbered hcount (List.mem_of_mem_take (List.mem_of_mem_drop hm))
  rw [length_numbered] at hb
  refine ⟨a, b', ha, hab', hb'.trans hb, ?_, ?_, ?_⟩
  · rw [hreceived, filter_map_orPing hnonneg, hmessages]
  · intro m hm
    rw [hreceived] at hm
    obtain ⟨m', hm', rfl⟩ := List.mem_map.mp hm
    rcases m' with _ | m'
    · exact .inl rfl
    · exact .inr (hnonneg m' (List.reduceOption_mem_iff.mpr hm'))
  · rintro ⟨beat, c', hidle, hc', hreg, hlistening, hempty⟩
    obtain rfl := Option.some.inj (hc.symm.trans hc')
    obtain rfl := hall hreg
    -- Everything begun is whole, and everything that came to the queue was begun.
    have hbegun : whole = begun := by
      rw [hidle] at hwrote
      rw [hwrote.received_idle] at hreceived
      refine hwhole.eq_of_length ?_
      simpa using (congrArg List.length hreceived).symm
    rcases hitems with ⟨hgone, -⟩ | hitems
    · exact absurd hgone hlistening
    · rw [hempty, List.append_nil, ← hbegun, hmessages] at hitems
      have hlength := congrArg List.length hitems
      simp only [List.length_drop, List.length_take, length_numbered] at hlength hab
      omega

/-- What a connection has written are the accepted events from the registration of its
client on, up to some point, each under its number, and heartbeats. Once it has caught
up, that point is the number of the next event. -/
theorem delivery_contiguous {n : Network} {settings : Settings} {s : Served}
    (hcreate : Relay.create n settings = .ok start) (hrun : run as start = some r)
    (hcount : (accepted as start).length < 2 ^ 63) (hs : s ∈ r.connections) :
    (∀ t ∈ r.connections, t.client = s.client → t = s) ∧
      ∃ socket a b, r.sockets[s.socket]? = some socket ∧ RegisteredAt as start s.client a ∧
        a ≤ b ∧ b ≤ (accepted as start).length ∧
        (Wire.received socket.outbound.bytes).1.filter (·.id ≠ -1) =
          ((numbered (accepted as start)).take b).drop a ∧
        (∀ m ∈ (Wire.received socket.outbound.bytes).1, m = .ping ∨ 0 ≤ m.id) ∧
        (r.IsCaughtUp s → r.loop.counter = Int64.ofNat b) := by
  obtain ⟨sent, pending, joined, haccepted, hdelivers, hjoined⟩ := run_delivers hcreate hrun
  have hsent : sent.length ≤ (accepted as start).length := by
    rw [haccepted, List.length_append]
    exact Nat.le_add_right _ _
  obtain ⟨socket, hsocket, hwritten⟩ := hdelivers.wired.exists_socket hs
  obtain ⟨a, b, ha, hab, hb, hmessages, hping, hcaughtUp⟩ :=
    hdelivers.received (Nat.lt_of_le_of_lt hsent hcount) hs
  rw [hwritten] at hmessages hping
  refine ⟨fun t ht hclient => hdelivers.eq_of_client_eq ht hs hclient, socket, a, b, hsocket,
    hjoined _ a ha, hab, hb.trans hsent, ?_, hping, fun hend => ?_⟩
  · rw [hmessages, haccepted, take_numbered_append sent pending hb]
  · rw [hdelivers.accounts.counter, hcaughtUp hend]

theorem delivery_contiguous_after_registration :
    let e := Event.ofKind "message"
    let as : List Action := [.loop (.call 0 (.event e)), .loop (.bring 0), .loop .takeEvent,
      .acceptor .start, .dial, .acceptor .accept, .loop .takeRequest, .acceptor .learn,
      .loop (.call 1 (.event e)), .loop (.bring 1), .loop .takeEvent,
      .connection 0 (.writer .start), .connection 0 (.writer .take),
      .connection 0 (.writer (.put 65536))]
    ∃ start r s, Relay.create {} .default = .ok start ∧ run as start = some r ∧
      accepted as start = [e, e] ∧ s ∈ r.connections ∧
      ∃ socket a b, r.sockets[s.socket]? = some socket ∧ RegisteredAt as start s.client a ∧
        (Wire.received socket.outbound.bytes).1.filter (·.id ≠ -1) =
          ((numbered [e, e]).take b).drop a := by
  intro e as
  obtain ⟨start, hcreate, haccepted, hserved⟩ :
      ∃ start, Relay.create {} .default = .ok start ∧
      accepted as start = [e, e] ∧ (run as start).any (·.connections.length = 1) :=
    ⟨_, rfl, by decide +kernel, by decide +kernel⟩
  obtain ⟨r, hrun, hlength⟩ := (Option.any_eq_true _ _).mp hserved
  obtain ⟨s, hmem⟩ := List.exists_mem_of_length_pos (of_decide_eq_true hlength ▸ Nat.one_pos)
  have hcount : (accepted as start).length < 2 ^ 63 := by
    rw [haccepted]
    decide
  obtain ⟨-, socket, a, b, hsocket, hregistered, -, -, hmessages, -⟩ :=
    delivery_contiguous hcreate hrun hcount hmem
  rw [haccepted] at hmessages
  exact ⟨start, r, s, hcreate, hrun, haccepted, hmem, socket, a, b, hsocket, hregistered,
    hmessages⟩

end HookRelay.Relay
