import HookRelay.Proofs.Registry.Delivery
import Mathlib.Data.List.Basic
import Mathlib.Data.List.Induction

namespace HookRelay

namespace Client

variable {m : Message} {c : Client}

/-- What the log says of a client that is dropped because it cannot take a message. A queue
that is both closed and full counts as closed. -/
def farewell (m : Message) (c : Client) : LogEntry :=
  if c.inbox.receiver = .listening then .queueFull c.id m.id else .connectionGone c.id

theorem refuses_iff :
    c.refuses = true ↔
      c.inbox.receiver ≠ .listening ∨ c.inbox.capacity ≤ c.inbox.items.length := by
  simp [refuses, Mailbox.isListening, Mailbox.hasRoom]

theorem not_refuses_iff :
    (!c.refuses) = true ↔
      c.inbox.receiver = .listening ∧ c.inbox.items.length < c.inbox.capacity := by
  simp [refuses, Mailbox.isListening, Mailbox.hasRoom]

theorem offer_snd (m : Message) (c : Client) :
    (c.offer m).2 = if c.registered && c.refuses then [c.farewell m] else [] := by
  cases hreg : c.registered with
  | false => simp [offer, hreg]
  | true =>
      by_cases hlistening : c.inbox.receiver = .listening
      · by_cases hroom : c.inbox.items.length < c.inbox.capacity
        · simp [offer, hreg, refuses, Mailbox.offer, Mailbox.isListening, Mailbox.hasRoom,
            hlistening, hroom]
        · simp [offer, hreg, refuses, Mailbox.offer, Mailbox.isListening, Mailbox.hasRoom,
            hlistening, hroom, farewell]
      · simp [offer, hreg, refuses, Mailbox.offer, Mailbox.isListening, hlistening, farewell]

theorem registered_offer (m : Message) (c : Client) :
    (c.offer m).1.registered = (c.registered && !c.refuses) := by
  rw [offer_fst]
  cases hreg : c.registered <;> cases hrefuses : c.refuses <;> simp [leave, push, hreg]

/-- An offer that is taken adds the message at the end of the queue; one that is not leaves
the queue's contents and its far end alone. -/
theorem offer_frame (m : Message) (c : Client) :
    (c.offer m).1.id = c.id ∧ (c.offer m).1.stopped = c.stopped ∧
      (c.offer m).1.inbox.receiver = c.inbox.receiver ∧
      (c.offer m).1.inbox.capacity = c.inbox.capacity ∧
      (c.offer m).1.inbox.items =
        c.inbox.items ++ if (c.offer m).1.registered then [m] else [] := by
  rw [registered_offer, offer_fst]
  cases hreg : c.registered <;> cases hrefuses : c.refuses <;> simp [leave, push]

end Client

namespace Registry

variable {r : Registry} {m : Message}

theorem live_broadcast (r : Registry) (m : Message) :
    (r.broadcast m).2.1.live = (r.live.filter (!·.refuses)).map (·.push m) := by
  have hstays : (fun c => (Client.offer m c).1.registered) =
      fun c => !c.refuses && c.registered := by
    funext c
    rw [Client.registered_offer, Bool.and_comm]
  simp only [broadcast, live, List.map_map, List.filter_map, List.filter_filter]
  simp only [Function.comp_def, hstays]
  refine List.map_congr_left fun c hc => ?_
  obtain ⟨hrefuses, hreg⟩ := Bool.and_eq_true_iff.mp (List.mem_filter.mp hc).2
  rw [Client.offer_fst, if_pos hreg, if_neg (by simpa using hrefuses)]

theorem log_broadcast (r : Registry) (m : Message) :
    (r.broadcast m).2.2 = (r.live.filter (·.refuses)).map (·.farewell m) := by
  simp only [broadcast, live, List.filter_filter, List.flatMap_map]
  induction r.clients with
  | nil => rfl
  | cons c clients ih =>
      rw [List.flatMap_cons, ih, Client.offer_snd, Bool.and_comm, List.filter_cons]
      split
      · rfl
      · rfl

theorem pruned_broadcast (r : Registry) (m : Message) :
    (r.broadcast m).1 = (r.live.filter (·.refuses)).length := by
  change r.size - (r.broadcast m).2.1.live.length = _
  rw [live_broadcast, List.length_map, size, List.length_eq_length_filter_add (·.refuses)]
  omega

namespace Session

theorem capacity_of_run {capacity outbox k : Nat} {start : Session} {as : List Step} {c : Client}
    (hstart : Session.start capacity outbox = .ok start)
    (hc : (start.run as).registry.clients[k]? = some c) : c.inbox.capacity = capacity := by
  have hregistry := start_eq_ok hstart
  induction as using List.reverseRecOn generalizing c with
  | nil =>
      rw [run_nil, hregistry] at hc
      cases hc
  | append_singleton as a ih =>
      rw [run_append] at hc
      rcases clients_next_cases hc with ⟨c, hbefore, rfl⟩ | ⟨-, -, rfl⟩
      · exact Step.capacity_onClient.trans (ih hbefore)
      · simp only [registry_capacity_run, hregistry]

end Session

/-- A broadcast takes out of the registry exactly the clients whose queue is full or no longer
listened to, tells how many they are, and logs one line for each of them in the registry's
order. The others keep their order, and each finds the message once, at the end of its
queue. Nothing else changes: not the queue's contents of a client that was taken out, not a
stop signal, and nothing of the intake. So the clients that remain listen, and their queues
are neither empty nor over their capacity, which is the configured one in any session. -/
theorem broadcast_exact (s : Session) (m : Message) :
    let removed := s.registry.live.filter fun c =>
      c.inbox.receiver ≠ .listening ∨ c.inbox.capacity ≤ c.inbox.items.length
    let kept := s.registry.live.filter fun c =>
      c.inbox.receiver = .listening ∧ c.inbox.items.length < c.inbox.capacity
    let s' := s.next (.broadcast m)
    (s.step (.broadcast m)).1 = .pruned removed.length ∧
    (s.step (.broadcast m)).2.2 = removed.map (·.farewell m) ∧
    s'.registry.live = kept.map (·.push m) ∧
    (∃ clients, s' = { s with registry := { s.registry with clients } } ∧
      clients.length = s.registry.clients.length) ∧
    (∀ (k : Nat) (c : Client), s.registry.clients[k]? = some c →
      ∃ c' : Client, s'.registry.clients[k]? = some c' ∧
      c'.registered = (c.registered && !c.refuses) ∧
      c'.id = c.id ∧ c'.stopped = c.stopped ∧ c'.inbox.receiver = c.inbox.receiver ∧
      c'.inbox.capacity = c.inbox.capacity ∧
      c'.inbox.items = c.inbox.items ++ if c'.registered then [m] else []) ∧
    (∀ c ∈ s'.registry.live, c.inbox.receiver = .listening ∧ c.inbox.items ≠ [] ∧
      c.inbox.items.length ≤ c.inbox.capacity) ∧
    ∀ capacity outbox start as, Session.start capacity outbox = .ok start →
      s = start.run as → ∀ c ∈ s'.registry.live, c.inbox.capacity = capacity := by
  intro removed kept s'
  have hremoved : removed = s.registry.live.filter (·.refuses) :=
    List.filter_congr fun c _ =>
      Bool.eq_iff_iff.mpr (decide_eq_true_iff.trans Client.refuses_iff.symm)
  have hkept : kept = s.registry.live.filter (!·.refuses) :=
    List.filter_congr fun c _ =>
      Bool.eq_iff_iff.mpr (decide_eq_true_iff.trans Client.not_refuses_iff.symm)
  have hlive : s'.registry.live = kept.map (·.push m) := by
    rw [hkept]
    exact live_broadcast s.registry m
  refine ⟨?_, ?_, hlive, ⟨_, rfl, ?_⟩, ?_, ?_, ?_⟩
  · rw [hremoved, ← pruned_broadcast s.registry m]
    rfl
  · rw [hremoved, ← log_broadcast s.registry m]
    rfl
  · simp
  · intro k c hc
    exact ⟨_, Session.clients_next _ hc, Client.registered_offer m c, Client.offer_frame m c⟩
  · intro c hc
    rw [hlive] at hc
    obtain ⟨c, hmem, rfl⟩ := List.mem_map.mp hc
    obtain ⟨hlistening, hroom⟩ := of_decide_eq_true (List.mem_filter.mp hmem).2
    exact ⟨hlistening, List.append_ne_nil_of_right_ne_nil _ (List.cons_ne_nil _ _),
      by simpa [Client.push] using Nat.succ_le_of_lt hroom⟩
  · rintro capacity outbox start as hstart rfl c hc
    obtain ⟨k, hk⟩ := List.mem_iff_getElem?.mp (List.mem_filter.mp hc).1
    have hlast : (start.run (as ++ [.broadcast m])).registry.clients[k]? = some c := by
      rw [Session.run_append]
      exact hk
    exact Session.capacity_of_run hstart hlast

/-- Of four clients one has read its message, one has not, one has closed its full queue and
one is gone. -/
theorem broadcast_exact_mixed_clients :
    let m : Message := ⟨"message", none, 0⟩
    let m' : Message := ⟨"message", none, 1⟩
    let start : Session := { registry := { capacity := 1 }, intake := { capacity := 1 } }
    let as := [Step.register, .register, .register, .register, .broadcast m, .recv 0,
      .closeInbox 2, .dropInbox 3]
    let s := start.run as
    Session.start 1 1 = .ok start ∧ (s.step (.broadcast m')).1 = .pruned 3 ∧
      (s.step (.broadcast m')).2.2 =
        [.queueFull 1 1, .connectionGone 2, .connectionGone 3] ∧
      ∀ c ∈ (s.next (.broadcast m')).registry.live,
        c.inbox.items.length ≤ c.inbox.capacity ∧ c.inbox.capacity = 1 := by
  intro m m' start as s
  have hstart : Session.start 1 1 = .ok start := rfl
  obtain ⟨hpruned, hlog, -, -, -, hlive, hcapacity⟩ := broadcast_exact s m'
  refine ⟨hstart, hpruned.trans (by decide), hlog.trans (by decide), fun c hc => ?_⟩
  exact ⟨(hlive c hc).2.2, hcapacity 1 1 start as hstart rfl c hc⟩

end Registry

end HookRelay
