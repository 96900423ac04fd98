import HookRelay.Proofs.EventLoop.Accounts
import HookRelay.Proofs.EventLoop.Forwarding
/-!
What becomes of each client of an event loop. Whatever happens, a client that is there stays
there, and only the events that the loop handles can come to its queue, each under the number
of events before it.
-/

namespace HookRelay.EventLoop

/-- All that can happen to a client while these messages are offered. -/
inductive Meets : List Message → Client → Client → Prop
  | offer (m : Message) (c : Client) : Meets [m] c (c.offer m).1
  | nothing (c : Client) : Meets [] c c
  | shutDown (c : Client) : Meets [] c c.shutDown
  | takeInbox (c : Client) : Meets [] c { c with inbox := c.inbox.take.2 }
  | dropInbox (c : Client) : Meets [] c { c with inbox := c.inbox.dropReceiver }
  | stop (c : Client) : Meets [] c { c with stopped := true }

/-- The messages that the loop offers to its clients. -/
def dispatching (h : Happening) (l : EventLoop) : List Message :=
  (l.handling .events h).map fun e => .ofEvent e l.counter

/-- Between these two states the loop has offered `ms` to its clients. -/
structure Treats (ms : List Message) (l l' : EventLoop) : Prop where
  counter : l'.counter = l.counter + Int64.ofNat ms.length
  old : ∀ (k : Nat) (c : Client), l.registry.clients[k]? = some c →
    ∃ c', l'.registry.clients[k]? = some c' ∧ Meets ms c c'
  new : ∀ (k : Nat) (c' : Client),
    l.registry.clients[k]? = none → l'.registry.clients[k]? = some c' →
    c' = { id := l.registry.nextId, inbox := { capacity := l.registry.capacity } } ∧
      l.phase ≠ .exited

/-- The queue of the client at a position. -/
def inboxOf (k : Nat) (l : EventLoop) : List Message :=
  l.registry.clients[k]?.elim [] (·.inbox.items)

/-- What comes into the queue of a client. -/
def gaining (k : Nat) (h : Happening) (l : EventLoop) : List Message :=
  (l.happen h).elim [] fun l' => (l'.inboxOf k).drop (l.inboxOf k).length

def delivered (k : Nat) : List Happening → EventLoop → List Message :=
  Steps.seen happen (gaining k)

variable {ms : List Message} {c c' : Client} {l l' : EventLoop} {a : Action} {h : Happening}
  {now k : Nat}

namespace Meets

theorem stopped (hmeets : Meets ms c c') (hstopped : c.stopped = true) : c'.stopped = true := by
  cases hmeets with
  | offer m =>
      rw [Client.offer_fst]
      split
      · split <;> exact hstopped
      · exact hstopped
  | shutDown =>
      rw [Client.shutDown]
      split
      · rfl
      · exact hstopped
  | stop => rfl
  | nothing | takeInbox | dropInbox => exact hstopped

theorem registered (hmeets : Meets ms c c') (hleft : c.registered = false) :
    c'.registered = false := by
  cases hmeets with
  | offer m =>
      rw [Client.offer_fst, hleft, if_neg Bool.false_ne_true]
      exact hleft
  | shutDown =>
      rw [Client.shutDown, hleft, if_neg Bool.false_ne_true]
      exact hleft
  | stop | nothing | takeInbox | dropInbox => exact hleft

theorem senders (hmeets : Meets ms c c')
    (h : c.registered = false → c.inbox.senders = 0) :
    c'.registered = false → c'.inbox.senders = 0 := by
  cases hmeets with
  | offer m =>
      rw [Client.offer_fst]
      split
      · split
        · exact fun _ => rfl
        · exact h
      · exact h
  | shutDown =>
      rw [Client.shutDown]
      split
      · exact fun _ => rfl
      · exact h
  | takeInbox =>
      have htake : c.inbox.take.2.senders = c.inbox.senders := by
        rw [Mailbox.take]
        split <;> rfl
      rw [htake]
      exact h
  | stop | nothing | dropInbox => exact h

theorem gains (hmeets : Meets ms c c') :
    (c'.inbox.items.drop c.inbox.items.length).Sublist ms := by
  have hnothing : ∀ {ms : List Message} {c' : Client},
      c'.inbox.items.length ≤ c.inbox.items.length →
      (c'.inbox.items.drop c.inbox.items.length).Sublist ms := by
    intro ms c' hle
    rw [List.drop_eq_nil_of_le hle]
    exact List.nil_sublist ms
  cases hmeets with
  | offer m =>
      rw [Client.offer_fst]
      split
      · split
        · exact hnothing (Nat.le_refl _)
        · change ((c.inbox.items ++ [m]).drop c.inbox.items.length).Sublist [m]
          simp
      · exact hnothing (Nat.le_refl _)
  | shutDown =>
      rw [Client.shutDown]
      split <;> exact hnothing (Nat.le_refl _)
  | takeInbox =>
      apply hnothing
      rw [Mailbox.take]
      split
      · next hitems =>
        rw [hitems]
        exact Nat.le_succ _
      · exact Nat.le_refl _
  | dropInbox => exact hnothing (Nat.zero_le _)
  | stop | nothing => exact hnothing (Nat.le_refl _)

end Meets

namespace Treats

theorem of_map (f : Client → Client) (hcounter : l'.counter = l.counter + Int64.ofNat ms.length)
    (hclients : l'.registry.clients = l.registry.clients.map f) (hf : ∀ c, Meets ms c (f c)) :
    Treats ms l l' where
  counter := hcounter
  old k c hc := by
    refine ⟨f c, ?_, hf c⟩
    rw [hclients, List.getElem?_map, hc]
    rfl
  new k c' hnone hc' := by
    rw [hclients, List.getElem?_map, hnone] at hc'
    cases hc'

theorem of_clients (hcounter : l'.counter = l.counter)
    (hclients : l'.registry.clients = l.registry.clients) : Treats [] l l' := by
  apply of_map id
  · rw [hcounter]
    exact (Int64.add_zero _).symm
  · rw [hclients, List.map_id]
  · exact .nothing

theorem of_modify {f : Client → Client} (hf : ∀ c, Meets [] c (f c)) :
    Treats [] l (l.modifyClient k f) where
  counter := (Int64.add_zero _).symm
  old j c hc := by
    change ∃ c', (l.registry.clients.modify k f)[j]? = some c' ∧ _
    rw [List.getElem?_modify, hc]
    by_cases hk : k = j
    · exact ⟨f c, by simp [hk], hf c⟩
    · exact ⟨c, by simp [hk], .nothing c⟩
  new j c' hnone hc' := by
    change (l.registry.clients.modify k f)[j]? = some c' at hc'
    rw [List.getElem?_modify, hnone] at hc'
    cases hc'

theorem exit (hcounter : l'.counter = l.counter)
    (hclients : l'.registry.clients = l.registry.clients) : Treats [] l l'.exit := by
  apply of_map Client.shutDown
  · change l'.counter = _
    rw [hcounter]
    exact (Int64.add_zero _).symm
  · change l'.registry.clients.map _ = _
    rw [hclients]
  · exact .shutDown

theorem checkOver (hcounter : l'.counter = l.counter)
    (hclients : l'.registry.clients = l.registry.clients) : Treats [] l l'.checkOver := by
  unfold EventLoop.checkOver
  split
  · exact of_clients hcounter hclients
  · exact exit hcounter hclients

theorem register (hready : l.phase = .ready) (requests : Intake Nat) (socket : Nat) :
    Treats [] l ({ l with requests }.register socket) := by
  rw [EventLoop.register, Registry.register]
  rcases hcreate : (Mailbox.create l.registry.capacity : Except CapacityError (Mailbox Message))
    with e | inbox
  · exact of_clients rfl rfl
  · constructor
    · exact (Int64.add_zero _).symm
    · intro k c hc
      refine ⟨c, ?_, .nothing c⟩
      exact (List.getElem?_append_left (List.getElem?_eq_some_iff.mp hc).1).trans hc
    · intro k c' hnone hc'
      change (l.registry.clients ++ [{ id := l.registry.nextId, inbox }])[k]? = some c' at hc'
      have hk : l.registry.clients.length ≤ k := List.getElem?_eq_none_iff.mp hnone
      rw [List.getElem?_append_right hk] at hc'
      rw [List.mem_singleton.mp (List.mem_of_getElem? hc'), Mailbox.eq_of_create hcreate]
      exact ⟨rfl, by simp [hready]⟩

theorem origin (htreats : Treats ms l l') (hc' : l'.registry.clients[k]? = some c') :
    (∃ c, l.registry.clients[k]? = some c ∧ Meets ms c c') ∨
      l.registry.clients[k]? = none ∧ c'.registered = true ∧ c'.inbox.items = [] ∧
        l.phase ≠ .exited := by
  cases hc : l.registry.clients[k]? with
  | none =>
      obtain ⟨rfl, hgoing⟩ := htreats.new k c' hc hc'
      exact .inr ⟨rfl, rfl, rfl, hgoing⟩
  | some c =>
      obtain ⟨c₁, hc₁, hmeets⟩ := htreats.old k c hc
      rw [hc'] at hc₁
      cases hc₁
      exact .inl ⟨c, rfl, hmeets⟩

theorem gains (htreats : Treats ms l l') (k : Nat) :
    ((l'.inboxOf k).drop (l.inboxOf k).length).Sublist ms := by
  cases hc' : l'.registry.clients[k]? with
  | none =>
      have hinbox : l'.inboxOf k = [] := by rw [inboxOf, hc']; rfl
      rw [hinbox, List.drop_nil]
      exact List.nil_sublist ms
  | some c' =>
      have hinbox' : l'.inboxOf k = c'.inbox.items := by rw [inboxOf, hc']; rfl
      rcases htreats.origin hc' with ⟨c, hc, hmeets⟩ | ⟨-, -, hitems, -⟩
      · have hinbox : l.inboxOf k = c.inbox.items := by rw [inboxOf, hc]; rfl
        rw [hinbox', hinbox]
        exact hmeets.gains
      · rw [hinbox', hitems, List.drop_nil]
        exact List.nil_sublist ms

end Treats

theorem Turn.treats (hready : l.phase = .ready) (hturn : Turn now l a l') :
    Treats (l.dispatching (.step now a)) l l' := by
  cases hturn with
  | quits => exact .exit rfl rfl
  | @event e events _ htake =>
      have hdispatching : l.dispatching (.step now .takeEvent) = [.ofEvent e l.counter] := by
        change (l.events.queue.items.take 1).map _ = _
        rw [Intake.items_of_take htake]
        rfl
      rw [hdispatching]
      refine .of_map (fun c => (c.offer (.ofEvent e l.counter)).1) rfl ?_ (.offer _)
      simp [dispatch, write, Registry.broadcast]
  | noEvent _ htake =>
      have hdispatching : l.dispatching (.step now .takeEvent) = [] := by
        change (l.events.queue.items.take 1).map _ = _
        rw [Intake.take_one_of_disconnected htake]
        rfl
      rw [hdispatching]
      exact .checkOver rfl rfl
  | noCommand | noRequest => exact .checkOver rfl rfl
  | @request socket requests => exact .register hready requests socket
  | command | message => exact .of_clients rfl rfl

theorem happen_treats (hhappen : l.happen h = some l') : Treats (l.dispatching h) l l' := by
  cases h with
  | step now a =>
      rcases step_cases hhappen with ⟨o, s, _, rfl, -, -, rfl⟩ | ⟨hready, hturn⟩ | haround
      · cases o <;> exact .of_clients rfl rfl
      · exact hturn.treats hready
      · have hdispatching : l.dispatching (.step now a) = [] := by
          cases haround <;> rfl
        rw [hdispatching]
        exact .of_clients haround.keeps.counter haround.keeps.clients
  | takeInbox k =>
      cases hhappen
      exact .of_modify .takeInbox
  | dropInbox k =>
      cases hhappen
      exact .of_modify .dropInbox
  | stopClient k =>
      cases hhappen
      exact .of_modify .stop
  | bring | leave | dropMessageSender | note =>
      cases hhappen
      exact .of_clients rfl rfl

theorem gaining_sublist (hhappen : l.happen h = some l') (k : Nat) :
    (l.gaining k h).Sublist (l.dispatching h) := by
  rw [gaining, hhappen, Option.elim_some]
  exact (happen_treats hhappen).gains k

theorem length_handling_le {s : Source} : (l.handling s h).length ≤ 1 := by
  unfold handling
  split
  · exact List.length_take_le _ _
  · exact List.length_take_le _ _
  · exact List.length_take_le _ _
  · exact List.length_take_le _ _
  · exact Nat.zero_le 1

theorem numbered_append_handling {es : List Event} (hcounter : l.counter = Int64.ofNat es.length) :
    numbered (es ++ l.handling .events h) = numbered es ++ l.dispatching h := by
  rw [dispatching]
  have hlength := length_handling_le (s := .events) (l := l) (h := h)
  match hhandling : l.handling .events h with
  | [] => rw [List.map_nil, List.append_nil, List.append_nil]
  | [e] =>
      rw [numbered_concat, hcounter]
      rfl
  | _ :: _ :: _ =>
      rw [hhandling] at hlength
      exact absurd hlength (by simp)

/-- What comes into the queue of a client in the course of a run is among the events handled
in this run, in their order and under their numbers. -/
theorem run_delivered {start : EventLoop} {hs : List Happening} (hcounter : start.counter = 0)
    (hrun : start.run hs = some l) (k : Nat) :
    l.counter = Int64.ofNat (handled .events hs start).length ∧
      (delivered k hs start).Sublist (numbered (handled .events hs start)) := by
  refine Steps.run_induction (P := fun hs l =>
    l.counter = Int64.ofNat (handled .events hs start).length ∧
      (delivered k hs start).Sublist (numbered (handled .events hs start))) ?_ ?_ hrun
  · exact ⟨hcounter, List.nil_sublist _⟩
  · rintro hs h l l' hrun ⟨hcounter, hdelivered⟩ hhappen
    have hhandled : handled .events (hs ++ [h]) start =
        handled .events hs start ++ l.handling .events h := Steps.seen_concat hrun hhappen
    have hmore : delivered k (hs ++ [h]) start = delivered k hs start ++ l.gaining k h :=
      Steps.seen_concat hrun hhappen
    rw [hhandled, hmore]
    constructor
    · rw [(happen_treats hhappen).counter, hcounter, dispatching, List.length_map,
        ← Int64.ofNat_add, List.length_append]
    · rw [numbered_append_handling hcounter]
      exact hdelivered.append (gaining_sublist hhappen k)

end HookRelay.EventLoop
