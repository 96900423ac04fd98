import Mathlib.Data.List.Pairwise
import HookRelay.Proofs.EventLoop.Moves
import HookRelay.Proofs.Registry.Client
/-!
The books of an event loop: which events it has numbered, which ones still wait in its
intake, and how many it had numbered when it registered each client. A client follows
the numbered events from its registration on, until its queue refuses one.
-/

namespace HookRelay

/-- Events as messages, each under the number of events before it. -/
def numbered (es : List Event) : List Message :=
  es.mapIdx fun i e => { kind := e.kind, data := e.data, id := Int64.ofNat i }

theorem length_numbered (es : List Event) : (numbered es).length = es.length :=
  List.length_mapIdx

theorem numbered_concat (es : List Event) (e : Event) :
    numbered (es ++ [e]) = numbered es ++ [.ofEvent e (Int64.ofNat es.length)] :=
  List.mapIdx_concat

theorem take_numbered_append (es es' : List Event) {n : Nat} (h : n ≤ es.length) :
    (numbered (es ++ es')).take n = (numbered es).take n := by
  rw [numbered, List.mapIdx_append, List.take_append_of_le_length]
  · rfl
  · rwa [List.length_mapIdx]

/-- A client that was registered when the first `a` messages of a log had been offered.
The ones from there to some point `b` have come to its queue, and `taken` have been
taken out of it again. A registered client has had all of them. -/
def Client.Follows (log : List Message) (a : Nat) (taken : List Message) (c : Client) : Prop :=
  ∃ b, a ≤ b ∧ b ≤ log.length ∧ (c.registered = true → b = log.length) ∧
    taken <+: (log.take b).drop a ∧
    (c.inbox.receiver = .gone ∧ c.inbox.items = [] ∨
      taken ++ c.inbox.items = (log.take b).drop a)

namespace Client.Follows

variable {log taken : List Message} {a : Nat} {c : Client}

theorem register (log : List Message) (hitems : c.inbox.items = []) :
    c.Follows log log.length [] := by
  refine ⟨log.length, Nat.le_refl _, Nat.le_refl _, fun _ => rfl, List.nil_prefix, .inr ?_⟩
  rw [hitems, List.take_length, List.drop_length, List.append_nil]

theorem leave (h : c.Follows log a taken) : c.leave.Follows log a taken := by
  obtain ⟨b, hab, hb, -, htaken, hitems⟩ := h
  exact ⟨b, hab, hb, fun hreg => Bool.noConfusion hreg, htaken, hitems⟩

theorem shutDown (h : c.Follows log a taken) : c.shutDown.Follows log a taken := by
  rw [Client.shutDown]
  split
  · exact h.leave
  · exact h

theorem extend (m : Message) (hreg : c.registered = false) (h : c.Follows log a taken) :
    c.Follows (log ++ [m]) a taken := by
  obtain ⟨b, hab, hb, -, htaken, hitems⟩ := h
  have htake : (log ++ [m]).take b = log.take b := List.take_append_of_le_length hb
  refine ⟨b, hab, ?_, fun hreg' => ?_, by rwa [htake], by rwa [htake]⟩
  · rw [List.length_append]
    omega
  · rw [hreg] at hreg'
    cases hreg'

theorem push (m : Message) (hreg : c.registered = true) (hreceiver : c.inbox.receiver ≠ .gone)
    (h : c.Follows log a taken) : (c.push m).Follows (log ++ [m]) a taken := by
  obtain ⟨b, hab, -, hall, htaken, hitems⟩ := h
  obtain rfl := hall hreg
  have hnext : ((log ++ [m]).take (log ++ [m]).length).drop a =
      (log.take log.length).drop a ++ [m] := by
    rw [List.take_length, List.take_length, List.drop_append_of_le_length hab]
  refine ⟨(log ++ [m]).length, ?_, Nat.le_refl _, fun _ => rfl, ?_, .inr ?_⟩
  · rw [List.length_append]
    omega
  · rw [hnext]
    exact htaken.trans (List.prefix_append _ _)
  · rcases hitems with ⟨hgone, -⟩ | hitems
    · exact absurd hgone hreceiver
    · rw [hnext, ← hitems, List.append_assoc]
      rfl

theorem offer (m : Message) (h : c.Follows log a taken) :
    (c.offer m).1.Follows (log ++ [m]) a taken := by
  rw [offer_fst]
  split
  · next hreg =>
    split
    · exact extend m rfl h.leave
    · next hrefuses =>
      refine push m hreg (fun hgone => hrefuses ?_) h
      simp [refuses, Mailbox.isListening, hgone]
  · next hreg => exact extend m (Bool.eq_false_iff.mpr hreg) h

theorem take {more : List Message} {inbox : Mailbox Message} (stopped : Bool)
    (h : c.Follows log a taken)
    (hinbox : more = [] ∧ inbox.receiver = .gone ∧ inbox.items = [] ∨
      inbox.receiver = c.inbox.receiver ∧ more ++ inbox.items = c.inbox.items) :
    Client.Follows log a (taken ++ more) { c with inbox, stopped } := by
  obtain ⟨b, hab, hb, hall, htaken, hitems⟩ := h
  rcases hinbox with ⟨rfl, hdropped⟩ | ⟨hreceiver, hmore⟩
  · rw [List.append_nil]
    exact ⟨b, hab, hb, hall, htaken, .inl hdropped⟩
  · rcases hitems with ⟨hgone, hnone⟩ | hitems
    · rw [hnone, List.append_eq_nil_iff] at hmore
      obtain ⟨rfl, hempty⟩ := hmore
      rw [List.append_nil]
      exact ⟨b, hab, hb, hall, htaken, .inl ⟨hreceiver.trans hgone, hempty⟩⟩
    · rw [← hmore, ← List.append_assoc] at hitems
      exact ⟨b, hab, hb, hall, ⟨_, hitems⟩, .inr hitems⟩

end Client.Follows

namespace EventLoop

/-- The positions of the clients that were registered, in the order of the replies. -/
def admitted (replies : List (Nat × Option Nat)) : List Nat := replies.filterMap (·.2)

/-- The loop has numbered `sent`, its intake holds `pending`, and `joined` tells for
each client how many events had been numbered when it was registered. -/
structure Accounts (sent pending : List Event) (joined : List Nat) (l : EventLoop) : Prop where
  counter : l.counter = Int64.ofNat sent.length
  pending : l.phase = .exited ∨ l.events.queue.items = pending
  joined : joined.length = l.registry.clients.length
  replies : admitted l.replies = List.range l.registry.clients.length

/-- The client at position `k` follows the numbered events, and `taken` have been taken
out of its queue. -/
def Serves (sent : List Event) (joined : List Nat) (l : EventLoop) (k : Nat)
    (taken : List Message) : Prop :=
  ∃ c a, l.registry.clients[k]? = some c ∧ joined[k]? = some a ∧
    c.Follows (numbered sent) a taken

variable {sent pending entered : List Event} {joined : List Nat} {l l' : EventLoop} {k : Nat}
  {taken : List Message}

theorem admitted_refused (replies : List (Nat × Option Nat)) (refused : List Nat) :
    admitted (replies ++ refused.map (·, none)) = admitted replies := by
  simp [admitted, List.filterMap_append]

theorem admitted_registered (replies : List (Nat × Option Nat)) (socket client : Nat) :
    admitted (replies ++ [(socket, some client)]) = admitted replies ++ [client] := by
  simp [admitted, List.filterMap_append]

theorem Serves.map {sent' : List Event} {f : Client → Client}
    (hclients : l'.registry.clients = l.registry.clients.map f)
    (hf : ∀ c a, c.Follows (numbered sent) a taken → (f c).Follows (numbered sent') a taken)
    (h : Serves sent joined l k taken) : Serves sent' joined l' k taken := by
  obtain ⟨c, a, hc, ha, hfollows⟩ := h
  refine ⟨f c, a, ?_, ha, hf c a hfollows⟩
  rw [hclients, List.getElem?_map, hc]
  rfl

theorem create_accounts {settings : Settings} (h : create settings = .ok l) :
    Accounts [] [] [] l := by
  obtain ⟨events, hevents, h⟩ := exists_of_bind_eq_ok h
  obtain ⟨commands, -, h⟩ := exists_of_bind_eq_ok h
  obtain ⟨requests, -, h⟩ := exists_of_bind_eq_ok h
  obtain ⟨outbox, -, h⟩ := exists_of_bind_eq_ok h
  cases h
  exact ⟨rfl, .inr (by rw [Intake.eq_of_create hevents]), rfl, rfl⟩

/-- What the books show after a step, given the books before it. -/
structure Advances (sent : List Event) (joined : List Nat) (l : EventLoop) (sent' : List Event)
    (joined' : List Nat) (l' : EventLoop) : Prop where
  serves : ∀ k taken, Serves sent joined l k taken → Serves sent' joined' l' k taken
  joins : joined' = joined ∨
    joined' = joined ++ [sent.length] ∧ Serves sent' joined' l' joined.length []

/-- The books can be carried on over a step at which the intake accepts `entered`. -/
def Continues (sent pending : List Event) (joined : List Nat) (l : EventLoop)
    (entered : List Event) (l' : EventLoop) : Prop :=
  ∃ sent' pending' joined', sent' ++ pending' = sent ++ pending ++ entered ∧
    Accounts sent' pending' joined' l' ∧ Advances sent joined l sent' joined' l'

theorem Keeps.continues (hkeeps : Keeps l entered l') (h : Accounts sent pending joined l) :
    Continues sent pending joined l entered l' := by
  obtain ⟨refused, hreplies⟩ := hkeeps.replies
  refine ⟨sent, pending ++ entered, joined, (List.append_assoc _ _ _).symm, ?_, ?_⟩
  · constructor
    · rw [hkeeps.counter, h.counter]
    · rcases h.pending with hexited | hpending
      · exact .inl (hkeeps.exited hexited)
      · exact .inr (by rw [hkeeps.items, hpending])
    · rw [hkeeps.clients, h.joined]
    · rw [hreplies, admitted_refused, hkeeps.clients, h.replies]
  · refine ⟨?_, .inl rfl⟩
    rintro k taken ⟨c, a, hc, ha, hfollows⟩
    exact ⟨c, a, by rw [hkeeps.clients, hc], ha, hfollows⟩

theorem Accounts.numbers {e : Event} (h : Accounts sent pending joined l)
    (hphase : l.phase ≠ .exited) (hitems : l.events.queue.items = e :: l'.events.queue.items)
    (hcounter : l'.counter = l.counter + 1)
    (hclients : l'.registry.clients =
      l.registry.clients.map (fun c => (c.offer (.ofEvent e l.counter)).1))
    (hreplies : l'.replies = l.replies) : Continues sent pending joined l [] l' := by
  have hpending := h.pending.resolve_left hphase
  refine ⟨sent ++ [e], l'.events.queue.items, joined, ?_, ?_, ?_⟩
  · rw [← hpending, hitems, List.append_nil, List.append_assoc]
    rfl
  · constructor
    · rw [hcounter, h.counter, List.length_append, List.length_singleton, Int64.ofNat_add]
      rfl
    · exact .inr rfl
    · rw [hclients, List.length_map, h.joined]
    · rw [hreplies, hclients, List.length_map, h.replies]
  · refine ⟨fun k taken hserves => hserves.map hclients ?_, .inl rfl⟩
    intro c a hfollows
    rw [numbered_concat, ← h.counter]
    exact hfollows.offer _

theorem Accounts.registers {socket : Nat} {c : Client} (h : Accounts sent pending joined l)
    (hphase : l.phase ≠ .exited) (hitems : l'.events.queue.items = l.events.queue.items)
    (hcounter : l'.counter = l.counter)
    (hclients : l'.registry.clients = l.registry.clients ++ [c]) (hempty : c.inbox.items = [])
    (hreplies : l'.replies = l.replies ++ [(socket, some l.registry.clients.length)]) :
    Continues sent pending joined l [] l' := by
  refine ⟨sent, pending, joined ++ [sent.length], (List.append_nil _).symm, ?_, ?_⟩
  · constructor
    · rw [hcounter, h.counter]
    · exact .inr (by rw [hitems, h.pending.resolve_left hphase])
    · rw [hclients, List.length_append, List.length_append, h.joined]
      rfl
    · rw [hreplies, hclients, admitted_registered, h.replies, List.length_append,
        List.length_singleton, List.range_succ]
  · refine ⟨?_, .inr ⟨rfl, c, sent.length, ?_, ?_, ?_⟩⟩
    · rintro k taken ⟨c', a, hc', ha, hfollows⟩
      refine ⟨c', a, ?_, ?_, hfollows⟩
      · rw [hclients, List.getElem?_append_left (List.getElem?_eq_some_iff.mp hc').1, hc']
      · rw [List.getElem?_append_left (List.getElem?_eq_some_iff.mp ha).1, ha]
    · rw [hclients, h.joined, List.getElem?_concat_length]
    · rw [List.getElem?_concat_length]
    · rw [← length_numbered]
      exact .register _ hempty

theorem Accounts.ends {refused : List Nat} (h : Accounts sent pending joined l)
    (hphase : l'.phase = .exited) (hcounter : l'.counter = l.counter)
    (hclients : l'.registry.clients = l.registry.clients.map Client.shutDown)
    (hreplies : l'.replies = l.replies ++ refused.map (·, none)) :
    Continues sent pending joined l [] l' := by
  refine ⟨sent, pending, joined, (List.append_nil _).symm, ?_, ?_⟩
  · constructor
    · rw [hcounter, h.counter]
    · exact .inl hphase
    · rw [hclients, List.length_map, h.joined]
    · rw [hreplies, admitted_refused, hclients, List.length_map, h.replies]
  · refine ⟨fun k taken hserves => hserves.map hclients ?_, .inl rfl⟩
    intro c a hfollows
    exact hfollows.shutDown

theorem Accounts.moves (h : Accounts sent pending joined l) (hmoves : Moves l entered l') :
    Continues sent pending joined l entered l' := by
  rcases hmoves with hkeeps | ⟨hphase, hitems, hcounter, hclients, hreplies⟩ |
    ⟨socket, c, hphase, hitems, hcounter, hclients, -, hempty, hreplies⟩ |
    ⟨refused, hphase, hcounter, hclients, hreplies⟩
  · exact hkeeps.continues h
  · exact h.numbers hphase hitems hcounter hclients hreplies
  · exact h.registers hphase hitems hcounter hclients hempty hreplies
  · exact h.ends hphase hcounter hclients hreplies

theorem Accounts.socket_eq {client k k' : Nat} (h : Accounts sent pending joined l)
    (hk : (k, some client) ∈ l.replies) (hk' : (k', some client) ∈ l.replies) : k = k' := by
  by_contra hne
  let Apart (p q : Nat × Option Nat) : Prop :=
    ∀ c, p.2 = some c → ∀ c', q.2 = some c' → c ≠ c'
  have hnodup : l.replies.Pairwise Apart := by
    refine List.pairwise_filterMap.mp ?_
    change (admitted l.replies).Nodup
    rw [h.replies]
    exact List.nodup_range
  have : Std.Symm Apart := ⟨fun p q hpq c hc c' hc' => (hpq c' hc' c hc).symm⟩
  have hapart : Apart (k, some client) (k', some client) :=
    hnodup.forall hk hk' fun heq => hne (congrArg Prod.fst heq)
  exact hapart client rfl client rfl rfl

end EventLoop

end HookRelay
