import HookRelay.Proofs.Connection.Teardown
import HookRelay.Proofs.Relay.Parts

namespace HookRelay.Relay

open Wire (cut)

variable {n : Network} {settings : Settings} {start r : Relay} {as : List Action} {i : Nat}
  {s : Served} {l : Link}

/-- No connection of the relay reads past a bad frame. -/
theorem taken_le_cut (hcreate : Relay.create n settings = .ok start)
    (hrun : run as start = some r) (hs : r.connections[i]? = some s) (hl : r.link? s = some l) :
    l.socket.inbound.taken ≤ (cut r.limits.maxFrameLen l.socket.inbound.bytes).2 := by
  obtain ⟨l', id, now, link, happenings, hl', htaken, hwaiting, hconnection⟩ :=
    exists_connection_run hcreate hrun hs
  obtain rfl := Option.some.inj (hl.symm.trans hl')
  exact (Connection.run_hears (fun _ => Connection.start_hears htaken hwaiting) hconnection).taken

theorem run_tick_connection (hs : r.connections[i]? = some s) (hl : r.link? s = some l)
    (d : Duration) (a : Connection.Action) :
    r.run [.tick d, .connection i a] =
      (Connection.step r.limits (r.now + d.nanos) a s.connection l).map
        (({ r with now := r.now + d.nanos } : Relay).connect i s) := by
  have hs' : ({ r with now := r.now + d.nanos } : Relay).connections[i]? = some s := hs
  have hl' : ({ r with now := r.now + d.nanos } : Relay).link? s = some l := hl
  simp only [run, step, stepConnection, Option.bind_some, bind, hs', hl']
  cases Connection.step r.limits (r.now + d.nanos) a s.connection l <;> rfl

/-- Nothing but a breakdown is left that a connection can do, however long one waits. -/
def Stuck (r : Relay) (i : Nat) : Prop :=
  ∀ d a, a.isBreakDown = false → r.run [.tick d, .connection i a] = none

theorem Stuck.step_eq_none (h : r.Stuck i) (hs : r.connections[i]? = some s)
    (hl : r.link? s = some l) {later : Nat} (hle : r.now ≤ later) {a : Connection.Action}
    (ha : a.isBreakDown = false) : Connection.step r.limits later a s.connection l = none := by
  have hwait := h ⟨later - r.now⟩ a ha
  rw [run_tick_connection hs hl, Option.map_eq_none_iff] at hwait
  rwa [← Nat.add_sub_cancel' hle]

/-- As long as a connection has not ended altogether, there is something that it can do, even if
only when its next heartbeat or deadline comes. -/
theorem stuck_iff_isOver (hcreate : Relay.create n settings = .ok start)
    (hrun : run as start = some r) (hs : r.connections[i]? = some s) :
    r.Stuck i ↔ s.connection.isOver = true := by
  obtain ⟨l, id, now, link, happenings, hl, -, -, hconnection⟩ :=
    exists_connection_run hcreate hrun hs
  constructor
  · intro hstuck
    have hnone : ∀ later a, r.now ≤ later → a.isBreakDown = false →
        Connection.step r.limits later a s.connection l = none :=
      fun later a hle ha => hstuck.step_eq_none hs hl hle ha
    have hwriter := Connection.writer_hasEnded_of_stuck hnone
    exact (Connection.isOver_of_stuck (Connection.Accounted.run hconnection) hnone
      (.inl ⟨.writer, hwriter⟩)).1
  · intro hover d a _
    rw [run_tick_connection hs hl, Connection.step_of_isOver hover]
    rfl

/-- The client of a connection that has ended has been told to stop. -/
theorem exists_stopped_of_isOver (hcreate : Relay.create n settings = .ok start)
    (hrun : run as start = some r) (hs : r.connections[i]? = some s)
    (hover : s.connection.isOver = true) :
    ∃ c, r.loop.registry.clients[s.client]? = some c ∧ c.stopped = true := by
  obtain ⟨l, id, now, link, happenings, hl, -, -, hconnection⟩ :=
    exists_connection_run hcreate hrun hs
  obtain ⟨x, c, -, hc, rfl⟩ := link?_eq_some_iff.mp hl
  refine ⟨c, hc, (Connection.Accounted.run hconnection).concluded ?_⟩
  simp only [Connection.isOver, Bool.and_eq_true, Bool.not_eq_true'] at hover
  exact hover.2

end HookRelay.Relay
