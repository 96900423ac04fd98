import HookRelay.Proofs.Intake
import HookRelay.Registry.Session
/-!
Clients of a registry, one by one. What a step makes of a client depends on that
client and on the step alone, so a run can be followed at one client, whatever the
others do.
-/

namespace HookRelay

namespace Client

/-- Whether a message offered to the client would be refused: its queue has been
closed at the far end, or it is full. -/
def refuses (c : Client) : Bool := !c.inbox.isListening || !c.inbox.hasRoom

/-- The client with one more message in its queue. -/
def push (m : Message) (c : Client) : Client :=
  { c with inbox := { c.inbox with items := c.inbox.items ++ [m] } }

theorem offer_fst (m : Message) (c : Client) :
    (c.offer m).1 = if c.registered then if c.refuses then c.leave else c.push m else c := by
  cases hreg : c.registered with
  | false => simp [offer, hreg]
  | true =>
      cases hlistening : c.inbox.isListening with
      | false => simp [offer, hreg, refuses, Mailbox.offer, hlistening]
      | true =>
          cases hroom : c.inbox.hasRoom <;>
            simp [offer, hreg, refuses, push, Mailbox.offer, hlistening, hroom]

end Client

namespace Registry

/-- What a step makes of the client at position `k`. -/
def Step.onClient (k : Nat) (a : Step) (c : Client) : Client :=
  match a with
  | .broadcast m => (c.offer m).1
  | .recv j => if j = k then (Session.recv c).2 else c
  | .drain j => if j = k then (Session.drain c).2.2 else c
  | .closeInbox j => if j = k then { c with inbox := c.inbox.close } else c
  | .dropInbox j | .dropClient j =>
    if j = k then { c with inbox := c.inbox.dropReceiver } else c
  | .stop j => if j = k then { c with stopped := true } else c
  | .shutDown => c.shutDown
  | _ => c

namespace Session

theorem recv_snd (c : Client) :
    (recv c).2 = if c.inbox.receiver = .gone then c
      else { c with inbox := { c.inbox with items := c.inbox.items.tail } } := by
  simp only [recv, Mailbox.take]
  split
  · rfl
  · cases hitems : c.inbox.items with
    | nil =>
        obtain ⟨id, inbox, stopped, registered⟩ := c
        obtain ⟨capacity, items, receiver, senders⟩ := inbox
        subst hitems
        rfl
    | cons m rest => rfl

theorem drain_snd (c : Client) :
    (drain c).2.2 = if c.inbox.receiver = .gone then c
      else { c with inbox := { c.inbox with items := [] } } := by
  simp only [drain]
  split <;> rfl

/-- The session after a step. -/
def next (s : Session) (a : Step) : Session := (s.step a).2.1

/-- The session after some steps, one after another. -/
def run (s : Session) (as : List Step) : Session := as.foldl next s

@[simp] theorem run_nil (s : Session) : s.run [] = s := rfl

@[simp] theorem run_cons (s : Session) (a : Step) (as : List Step) :
    s.run (a :: as) = (s.next a).run as := rfl

theorem run_append (s : Session) (as bs : List Step) : s.run (as ++ bs) = (s.run as).run bs :=
  List.foldl_append

@[simp] theorem registry_dropSender (s : Session) (k : Nat) :
    (s.dropSender k).registry = s.registry := by
  unfold dropSender
  split <;> rfl

theorem clients_stepClient {s : Session} {a : Step} {j : Nat} {c : Client}
    (ha : client? a = some j) (hc : s.registry.clients[j]? = some c) (k : Nat) :
    (s.stepClient j c a).2.registry.clients[k]? =
      if j = k then some (a.onClient j c) else s.registry.clients[k]? := by
  cases a with
  | recv i | drain i | closeInbox i | dropInbox i | dropClient i | stop i =>
      cases ha
      by_cases hk : j = k
      · subst hk
        simp [stepClient, modify, hc, Step.onClient]
      · simp [stepClient, modify, hk]
  | send i m =>
      cases ha
      simp only [stepClient]
      split <;> by_cases hk : j = k <;> simp_all [Step.onClient]
  | register | broadcast | intake | closeIntake | dropIntakeSender | shutDown => cases ha

theorem onClient_of_ne {a : Step} {j k : Nat} (ha : client? a = some j) (hjk : j ≠ k)
    (c : Client) : a.onClient k c = c := by
  cases a <;> cases ha <;> simp [Step.onClient, hjk]

theorem clients_next {s : Session} {k : Nat} {c : Client} (a : Step)
    (hc : s.registry.clients[k]? = some c) :
    (s.next a).registry.clients[k]? = some (a.onClient k c) := by
  cases ha : client? a with
  | some j =>
      cases hj : s.registry.clients[j]? with
      | none =>
          have hjk : j ≠ k := by
            rintro rfl
            rw [hc] at hj
            cases hj
          rw [onClient_of_ne ha hjk]
          simpa [next, step, ha, hj] using hc
      | some c' =>
          have hnext : s.next a = (s.stepClient j c' a).2 := by simp [next, step, ha, hj]
          rw [hnext, clients_stepClient ha hj]
          by_cases hjk : j = k
          · subst hjk
            rw [hc] at hj
            cases hj
            rw [if_pos rfl]
          · rw [if_neg hjk, hc, onClient_of_ne ha hjk]
  | none =>
      cases a with
      | register =>
          have hlt : k < s.registry.clients.length := (List.getElem?_eq_some_iff.mp hc).1
          simp only [next, step, client?, Registry.register, Step.onClient]
          cases Mailbox.create s.registry.capacity with
          | error e => exact hc
          | ok inbox =>
              simp only
              rw [List.getElem?_append_left hlt, hc]
      | broadcast m => simp [next, step, client?, Registry.broadcast, Step.onClient, hc]
      | shutDown => simp [next, step, client?, Registry.shutDown, Step.onClient, hc]
      | dropIntakeSender =>
          simp only [next, step, client?]
          split <;> exact hc
      | intake | closeIntake => exact hc
      | recv | drain | closeInbox | dropInbox | dropClient | stop | send => cases ha

/-- What some steps make of the client at position `k`. -/
def onClient (k : Nat) (as : List Step) (c : Client) : Client :=
  as.foldl (fun c a => a.onClient k c) c

/-- A client can be followed through a run on its own. -/
theorem clients_run {s : Session} {k : Nat} {c : Client} (as : List Step)
    (hc : s.registry.clients[k]? = some c) :
    (s.run as).registry.clients[k]? = some (onClient k as c) := by
  induction as generalizing s c with
  | nil => exact hc
  | cons a as ih => exact ih (clients_next a hc)

theorem length_clients_next (s : Session) (a : Step) :
    (s.next a).registry.clients.length = s.registry.clients.length ∨
      a = .register ∧ (s.next a).registry.clients.length = s.registry.clients.length + 1 := by
  cases ha : client? a with
  | some j =>
      refine .inl ?_
      simp only [next, step, ha]
      cases hj : s.registry.clients[j]? with
      | none => rfl
      | some c =>
          cases a with
          | send i m =>
              simp only [stepClient]
              split <;> rfl
          | recv | drain | closeInbox | dropInbox | dropClient | stop =>
              simp [stepClient, modify]
          | register | broadcast | intake | closeIntake | dropIntakeSender | shutDown => cases ha
  | none =>
      cases a with
      | register =>
          simp only [next, step, client?, Registry.register]
          cases Mailbox.create s.registry.capacity <;> simp
      | broadcast m => simp [next, step, client?, Registry.broadcast]
      | shutDown => simp [next, step, client?, Registry.shutDown]
      | dropIntakeSender =>
          simp only [next, step, client?]
          split <;> exact .inl rfl
      | intake | closeIntake => exact .inl rfl
      | recv | drain | closeInbox | dropInbox | dropClient | stop | send => cases ha

theorem clients_next_cases {s : Session} {a : Step} {k : Nat} {c' : Client}
    (hc' : (s.next a).registry.clients[k]? = some c') :
    (∃ c, s.registry.clients[k]? = some c ∧ c' = a.onClient k c) ∨
      a = .register ∧ k = s.registry.clients.length ∧
        c' = { id := s.registry.nextId, inbox := { capacity := s.registry.capacity } } := by
  cases hc : s.registry.clients[k]? with
  | some c =>
      rw [clients_next a hc] at hc'
      exact .inl ⟨c, rfl, (Option.some.inj hc').symm⟩
  | none =>
      have hlow := List.getElem?_eq_none_iff.mp hc
      have hhigh := (List.getElem?_eq_some_iff.mp hc').1
      rcases length_clients_next s a with hlength | ⟨rfl, hlength⟩
      · omega
      · obtain rfl : k = s.registry.clients.length := by omega
        refine .inr ⟨rfl, rfl, ?_⟩
        simp only [next, step, client?, Registry.register] at hc'
        cases hcreate : (Mailbox.create s.registry.capacity :
            Except CapacityError (Mailbox Message)) with
        | error e => simp [hcreate] at hc'
        | ok inbox =>
            simp only [hcreate, List.getElem?_concat_length, Option.some.injEq] at hc'
            rw [← hc', Mailbox.eq_of_create hcreate]

theorem exists_register {s : Session} {k : Nat} (as : List Step)
    (hlow : s.registry.clients.length ≤ k) (hk : k < (s.run as).registry.clients.length) :
    ∃ before after, as = before ++ .register :: after ∧
      (s.run before).registry.clients.length = k := by
  induction as generalizing s with
  | nil => exact absurd hk (by simpa using hlow)
  | cons a as ih =>
      by_cases hnext : (s.next a).registry.clients.length ≤ k
      · obtain ⟨before, after, rfl, hlen⟩ := ih hnext hk
        exact ⟨a :: before, after, rfl, hlen⟩
      · rcases length_clients_next s a with hlen | ⟨rfl, hlen⟩
        · omega
        · exact ⟨[], as, rfl, by simp; omega⟩

end Session

end Registry

end HookRelay
