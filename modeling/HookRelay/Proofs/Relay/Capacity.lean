import HookRelay.Proofs.EventLoop.Calls
import HookRelay.Proofs.EventLoop.Restarts
import HookRelay.Proofs.Relay.Parts
/-!
What the capacities in the settings lead to. The check of the settings looks for empty queues
only. A queue of the relay that is too large keeps it from starting, and queues of clients that
are too large break its loop down at every request; with all others it never breaks down over a
request and keeps its acceptor open until it is stopped.
-/

namespace HookRelay

theorem Settings.pos_of_validate {s s' : Settings} (h : s.validate = .ok s') :
    ∀ q ∈ s.queues, 0 < q.2 := by
  have hviolations := (validate_eq_ok_iff.mp h).1
  have hqueues : s.queues.filter (·.2 = 0) = [] := by
    rw [violations, List.append_eq_nil_iff, List.append_eq_nil_iff] at hviolations
    exact List.map_eq_nil_iff.mp hviolations.1.1
  intro q hq
  have hzero := List.filter_eq_nil_iff.mp hqueues q hq
  exact Nat.pos_of_ne_zero (by simpa using hzero)

namespace Connection

theorem restarts_step {limits : Limits} {now : Nat} {a : Action} {c : Connection} {l : Link}
    {x : Connection × Link} (h : step limits now a c l = some x) :
    x.2.log.filterMap LogEntry.restart? = l.log.filterMap LogEntry.restart? := by
  have hwrites : ∀ {entries : List LogEntry}, (∀ e ∈ entries, e.restart? = none) →
      (l.log ++ entries).filterMap LogEntry.restart? = l.log.filterMap LogEntry.restart? := by
    intro entries hentries
    rw [List.filterMap_append, List.filterMap_eq_nil_iff.mpr hentries, List.append_nil]
  cases a with
  | writer s =>
      cases writerTurn_of_step h with
      | failsToStart | breaks => exact hwrites (by simp [LogEntry.restart?])
      | takes | beats =>
          unfold beginFrame
          split <;> rfl
      | starts | stops | forgotten | losesClient | puts | expires => rfl
  | reader s =>
      cases readerTurn_of_step h with
      | pong | breaks | refused | losesPlace => exact hwrites (by simp [LogEntry.restart?])
      | stops | undecodable | hears | oversized | streamEnds | expires | putsIn | standsInLine
      | resumes => rfl
  | coordinator s =>
      change stepCoordinator s c l = some x at h
      unfold stepCoordinator at h
      repeat' split at h
      all_goals cases h
      all_goals exact hwrites (by simp [LogEntry.restart?])

end Connection

namespace Relay

/-- The loop is steady, and the acceptor has closed only after the relay was stopped. -/
structure Honours (r : Relay) : Prop where
  steady : r.loop.Steady
  closed : r.acceptor.state = .closed → r.loop.stopping = true ∨ r.loop.phase = .exited

namespace Honours

variable {r r' : Relay} {a : Action}

theorem create {n : Network} {settings : Settings} (h : Relay.create n settings = .ok r) :
    Honours r := by
  obtain ⟨loop, hloop, h⟩ := exists_of_bind_eq_ok h
  cases h
  exact ⟨.create hloop, nofun⟩

theorem stepLoop {a : EventLoop.Action} {loop : EventLoop} (h : Honours r)
    (hcapacity : IsCapacity r.loop.registry.capacity) (hstep : r.loop.step r.now a = some loop) :
    loop.Steady ∧
      (r.acceptor.state = .closed → loop.stopping = true ∨ loop.phase = .exited) := by
  refine ⟨h.steady.step hcapacity hstep, fun hclosed => ?_⟩
  have hhappen : r.loop.happen (.step r.now a) = some loop := hstep
  exact (h.closed hclosed).imp (EventLoop.happen_retains hhappen).stopping
    (EventLoop.exited_happen · hhappen)

theorem endAcceptor {state : ListenerState} {first : Nat} (hsteady : r.loop.Steady)
    (hclosed : state = .closed → r.loop.stopping = true ∨ r.loop.phase = .exited) :
    Honours (r.endAcceptor state first) where
  steady := hsteady.of_eq (EventLoop.restarts_write_of_none (by simp [LogEntry.restart?])) rfl id
    (fun _ => .inl) rfl
  closed := hclosed

theorem turn (h : Honours r) (hcapacity : IsCapacity r.loop.registry.capacity)
    (hturn : Turn r a r') : Honours r' := by
  cases hturn with
  | loop _ hstep =>
      obtain ⟨hsteady, hclosed⟩ := h.stepLoop hcapacity hstep
      exact ⟨hsteady, hclosed⟩
  | accepts _ _ hstep =>
      obtain ⟨hsteady, hclosed⟩ := h.stepLoop hcapacity hstep
      exact ⟨hsteady, hclosed⟩
  | cannotListen =>
      refine endAcceptor (h.steady.of_eq ?_ rfl id (fun _ => .inl) rfl) nofun
      exact EventLoop.restarts_write_of_none (by simp [LogEntry.restart?])
  | listens => exact ⟨h.steady, nofun⟩
  | stops _ hstopping => exact endAcceptor h.steady fun _ => .inl hstopping
  | @turnedDown k _ hlookup =>
      obtain ⟨before, after, hreplies, -⟩ := List.lookup_eq_some_iff.mp hlookup
      have hmem : (k, none) ∈ r.loop.replies := by
        rw [hreplies]
        exact List.mem_append_right _ List.mem_cons_self
      exact endAcceptor h.steady fun _ => .inr (h.steady.refused k hmem)
  | connects _ hl hstep =>
      obtain ⟨socket, c, -, -, rfl⟩ := link?_eq_some_iff.mp hl
      exact ⟨h.steady.of_eq (Connection.restarts_step hstep) rfl id (fun _ => .inl) rfl,
        h.closed⟩
  | serves | dials | sends | halfCloses | closes | receives | ticks =>
      exact ⟨h.steady, h.closed⟩

end Honours

variable {as : List Action} {start r : Relay} {n : Network} {settings : Settings}

theorem capacity_run (hcreate : Relay.create n settings = .ok start)
    (hrun : run as start = some r) : r.loop.registry.capacity = settings.clientQueue := by
  obtain ⟨hloop, hs, hreached⟩ := exists_loop_run hcreate hrun
  rw [EventLoop.capacity_run hreached, EventLoop.eq_of_create hloop]

theorem run_honours (hcapacity : IsCapacity settings.clientQueue)
    (hcreate : Relay.create n settings = .ok start) (hrun : run as start = some r) :
    Honours r := by
  induction as using List.reverseRecOn generalizing r with
  | nil =>
      cases hrun
      exact .create hcreate
  | append_singleton as act ih =>
      obtain ⟨r₀, hrun₀, hstep⟩ := exists_of_run_concat hrun
      have hcapacity₀ : IsCapacity r₀.loop.registry.capacity := by
        rwa [capacity_run hcreate hrun₀]
      exact (ih hrun₀).turn hcapacity₀ (turn_of_step hstep)

theorem exists_create_iff :
    (∃ r, Relay.create n settings = .ok r) ↔ IsCapacity settings.inboxQueue ∧
      IsCapacity settings.controlQueue ∧ IsCapacity settings.registrationQueue ∧
      IsCapacity settings.outboxQueue := by
  rw [← EventLoop.exists_create_iff]
  constructor
  · rintro ⟨r, h⟩
    obtain ⟨loop, hloop, -⟩ := exists_of_bind_eq_ok h
    exact ⟨loop, hloop⟩
  · rintro ⟨loop, hloop⟩
    rw [create, hloop]
    exact ⟨_, rfl⟩

/-- A relay whose settings have been checked starts if the capacities of its own queues are
not too large. In a run of it a client can be registered if the capacity of the clients'
queues is not too large. Then its loop starts again exactly when it has broken down over a
line, it turns requests down only when it has ended, and the acceptor closes only when the
relay has been stopped or the loop has ended; otherwise nobody is ever registered. -/
theorem run_of_validated {settings' : Settings} (hvalid : settings.validate = .ok settings') :
    ((∃ r, Relay.create n settings = .ok r) ↔
        settings.inboxQueue ≤ maxCapacity ∧ settings.controlQueue ≤ maxCapacity ∧
          settings.registrationQueue ≤ maxCapacity ∧ settings.outboxQueue ≤ maxCapacity) ∧
      ∀ start as r, Relay.create n settings = .ok start → run as start = some r →
        (r.loop.registry.register.1 = .ok r.loop.registry.nextId ↔
          settings.clientQueue ≤ maxCapacity) ∧
        if settings.clientQueue ≤ maxCapacity then
          r.loop.restarts = r.loop.breakdowns ∧
            (∀ k, (k, none) ∈ r.loop.replies → r.loop.phase = .exited) ∧
            (r.acceptor.state = .closed → r.loop.stopping = true ∨ r.loop.phase = .exited)
        else r.loop.registry.clients = [] := by
  have hpos := settings.pos_of_validate hvalid
  have hiff : ∀ q ∈ settings.queues, IsCapacity q.2 ↔ q.2 ≤ maxCapacity := fun q hq =>
    ⟨And.right, fun hle => ⟨hpos q hq, hle⟩⟩
  simp only [Settings.queues, List.forall_mem_cons] at hiff
  obtain ⟨hclient, hinbox, hcontrol, houtbox, hregistration, -⟩ := hiff
  refine ⟨?_, ?_⟩
  · rw [exists_create_iff, hinbox, hcontrol, hregistration, houtbox]
  · intro start as r hcreate hrun
    refine ⟨?_, ?_⟩
    · rw [Registry.register_eq_ok_iff, capacity_run hcreate hrun, hclient]
    · split
      · next hle =>
        have hhonours := run_honours (hclient.mpr hle) hcreate hrun
        exact ⟨hhonours.steady.restarts, hhonours.steady.refused, hhonours.closed⟩
      · next hlarge =>
        obtain ⟨hloop, hs, hreached⟩ := exists_loop_run hcreate hrun
        have hstart := EventLoop.eq_of_create hloop
        refine EventLoop.clients_run ?_ ?_ hreached
        · rw [hstart]
          exact fun hcapacity => hlarge (hclient.mp hcapacity)
        · rw [hstart]

/-- The loop breaks down over a line while a client is registered. -/
theorem run_of_validated_over_breakdown :
    let m : Message := ⟨"message", none, 0⟩
    let frame := (Wire.encodeFrame m Settings.default.maxFrameLen).toOption.getD []
    let as : List Action := [.acceptor .start, .dial, .acceptor .accept, .loop .takeRequest,
      .acceptor .learn, .send 0 frame, .connection 0 (.reader .read),
      .connection 0 (.reader .offer), .loop .takeMessage,
      .loop (.chatEnds (.brokeDown .noReason))]
    ∃ start r, Relay.create {} .default = .ok start ∧ run as start = some r ∧
      r.loop.registry.register.1 = .ok r.loop.registry.nextId ∧
      r.loop.breakdowns = ["unknown panic payload"] ∧ r.loop.restarts = r.loop.breakdowns ∧
      ∀ k, (k, none) ∉ r.loop.replies := by
  intro m frame as
  have hvalid : Settings.default.validate = .ok .default := by decide
  obtain ⟨start, hcreate, hreached⟩ : ∃ start, Relay.create {} .default = .ok start ∧
      ((run as start).any fun r => r.loop.phase = .ready ∧
        r.loop.breakdowns = ["unknown panic payload"]) = true :=
    ⟨_, rfl, by decide +kernel⟩
  obtain ⟨r, hrun, hreached⟩ := (Option.any_eq_true _ _).mp hreached
  obtain ⟨hready, hbreakdowns⟩ := of_decide_eq_true hreached
  obtain ⟨hregisters, hhonours⟩ := (run_of_validated hvalid).2 start as r hcreate hrun
  rw [if_pos (by decide)] at hhonours
  obtain ⟨hrestarts, hrefused, -⟩ := hhonours
  refine ⟨start, r, hcreate, hrun, hregisters.mpr (by decide), hbreakdowns, hrestarts, ?_⟩
  intro k hk
  have hexited := hrefused k hk
  rw [hready] at hexited
  cases hexited

/-- Settings pass the check with which the relay does not start, and others with which it
starts but breaks down over the first request, which closes the acceptor. -/
theorem validated_not_honoured :
    let large := { Settings.default with inboxQueue := maxCapacity + 1 }
    let large' := { Settings.default with clientQueue := maxCapacity + 1 }
    let as : List Action := [.acceptor .start, .dial, .acceptor .accept, .loop .takeRequest,
      .acceptor .learn]
    large.validate = .ok large ∧ (Relay.create {} large).isOk = false ∧
      large'.validate = .ok large' ∧ ∃ start r, Relay.create {} large' = .ok start ∧
        run as start = some r ∧ r.acceptor.state = .closed ∧ r.loop.stopping = false ∧
        r.loop.phase = .ready ∧ r.loop.breakdowns = [] ∧
        r.loop.restarts = [CapacityError.tooLarge.text] := by
  intro large large' as
  obtain ⟨start, hcreate, hreached⟩ : ∃ start, Relay.create {} large' = .ok start ∧
      ((run as start).any fun r => r.acceptor.state = .closed ∧ r.loop.stopping = false ∧
        r.loop.phase = .ready ∧ r.loop.breakdowns = [] ∧
        r.loop.restarts = [CapacityError.tooLarge.text]) = true :=
    ⟨_, rfl, by decide +kernel⟩
  obtain ⟨r, hrun, hreached⟩ := (Option.any_eq_true _ _).mp hreached
  exact ⟨by decide, by decide, by decide, start, r, hcreate, hrun, of_decide_eq_true hreached⟩

end Relay

end HookRelay
