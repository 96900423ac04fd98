import HookRelay.Proofs.Intake
import HookRelay.Proofs.Registry.Client

namespace HookRelay.Registry

/-- The message that a step broadcasts. -/
def Step.message? : Step → Option Message
  | .broadcast m => some m
  | _ => none

/-- The messages that some steps broadcast, in order. -/
def broadcasts (as : List Step) : List Message := as.filterMap Step.message?

theorem broadcasts_cons (a : Step) (as : List Step) :
    broadcasts (a :: as) = a.message?.toList ++ broadcasts as := by
  cases a <;> rfl

/-- Whether the step takes a registered client out of the registry. -/
def Step.dismisses (a : Step) (c : Client) : Bool :=
  match a with
  | .broadcast _ => c.refuses
  | .shutDown => true
  | _ => false

/-- The messages that the step reads from the inbox of the client at position `k`. -/
def Step.takes (k : Nat) (a : Step) (c : Client) : List Message :=
  match a with
  | .recv j =>
    if j = k then
      match (Session.recv c).1 with
      | .item m => [m]
      | _ => []
    else []
  | .drain j => if j = k then (Session.drain c).1 else []
  | _ => []

/-- The messages that the step puts into the client's inbox. -/
def Step.gains (a : Step) (c : Client) : List Message :=
  if c.registered && !a.dismisses c then a.message?.toList else []

namespace Step

variable {k : Nat} {a : Step} {c : Client}

theorem registered_onClient :
    (a.onClient k c).registered = (c.registered && !a.dismisses c) := by
  cases a with
  | broadcast m =>
      simp only [onClient, Client.offer_fst, dismisses]
      cases hreg : c.registered <;> cases hrefuses : c.refuses <;>
        simp [Client.leave, Client.push, hreg]
  | shutDown => cases hreg : c.registered <;> simp [onClient, Client.shutDown, hreg, dismisses,
      Client.leave]
  | recv j | drain j =>
      simp only [onClient, dismisses, Session.recv_snd, Session.drain_snd]
      repeat' split
      all_goals simp
  | closeInbox j | dropInbox j | dropClient j | stop j =>
      simp only [onClient, dismisses]
      split <;> simp
  | register | send | intake | closeIntake | dropIntakeSender => simp [onClient, dismisses]

theorem receiver_ne_gone (h : (a.onClient k c).inbox.receiver ≠ .gone) :
    c.inbox.receiver ≠ .gone := by
  intro hgone
  apply h
  cases a with
  | broadcast m =>
      simp only [onClient, Client.offer_fst]
      cases hreg : c.registered <;> cases hrefuses : c.refuses <;>
        simp [Client.leave, Client.push, hgone]
  | shutDown => cases hreg : c.registered <;> simp [onClient, Client.shutDown, hreg,
      Client.leave, hgone]
  | recv j | drain j | closeInbox j | dropInbox j | dropClient j | stop j =>
      simp only [onClient, Session.recv_snd, Session.drain_snd]
      split <;> simp [hgone, Mailbox.close, Mailbox.dropReceiver]
  | register | send | intake | closeIntake | dropIntakeSender => exact hgone

theorem takes_append_items (h : (a.onClient k c).inbox.receiver ≠ .gone) :
    a.takes k c ++ (a.onClient k c).inbox.items = c.inbox.items ++ a.gains c := by
  have hreceiver := receiver_ne_gone h
  cases a with
  | broadcast m =>
      simp only [onClient, Client.offer_fst, takes, gains, dismisses, message?]
      by_cases hreg : c.registered <;> by_cases hrefuses : c.refuses <;>
        simp [hreg, hrefuses, Client.leave, Client.push]
  | shutDown =>
      cases hreg : c.registered <;>
        simp [onClient, Client.shutDown, takes, gains, dismisses, hreg, Client.leave]
  | recv j =>
      simp only [onClient, takes, gains, message?, Session.recv_snd, if_neg hreceiver]
      split
      · cases hitems : c.inbox.items with
        | nil => by_cases hover : c.inbox.isOver <;>
            simp [Session.recv, hreceiver, Mailbox.take, hitems, hover, Read.ofTaken]
        | cons m rest => simp [Session.recv, hreceiver, Mailbox.take, hitems, Read.ofTaken]
      · simp
  | drain j =>
      simp only [onClient, takes, gains, message?, Session.drain_snd, if_neg hreceiver]
      split <;> simp [Session.drain, hreceiver]
  | closeInbox j | stop j =>
      simp only [onClient, takes, gains, message?]
      split <;> simp [Mailbox.close]
  | dropInbox j | dropClient j =>
      simp only [onClient, takes, gains, message?] at h ⊢
      split at h
      · simp [Mailbox.dropReceiver] at h
      · simp_all
  | register | send | intake | closeIntake | dropIntakeSender =>
      simp [onClient, takes, gains, message?]

theorem capacity_onClient : (a.onClient k c).inbox.capacity = c.inbox.capacity := by
  cases a with
  | broadcast m =>
      simp only [onClient, Client.offer_fst]
      by_cases hreg : c.registered <;> by_cases hrefuses : c.refuses <;>
        simp [hreg, hrefuses, Client.leave, Client.push]
  | shutDown =>
      by_cases hreg : c.registered <;> simp [onClient, Client.shutDown, hreg, Client.leave]
  | recv j | drain j | closeInbox j | dropInbox j | dropClient j | stop j =>
      simp only [onClient, Session.recv_snd, Session.drain_snd]
      repeat' split
      all_goals simp [Mailbox.close, Mailbox.dropReceiver]
  | register | send | intake | closeIntake | dropIntakeSender => rfl

theorem senders_onClient (h : c.registered = false → c.inbox.senders = 0)
    (h' : (a.onClient k c).registered = false) : (a.onClient k c).inbox.senders = 0 := by
  cases a with
  | broadcast m =>
      simp only [onClient, Client.offer_fst] at h' ⊢
      by_cases hreg : c.registered <;> by_cases hrefuses : c.refuses <;>
        simp_all [Client.leave, Client.push]
  | shutDown => by_cases hreg : c.registered <;> simp_all [onClient, Client.shutDown, Client.leave]
  | recv j | drain j | closeInbox j | dropInbox j | dropClient j | stop j =>
      simp only [onClient, Session.recv_snd, Session.drain_snd] at h' ⊢
      repeat' split at h'
      all_goals simp_all [Mailbox.close, Mailbox.dropReceiver]
  | register | send | intake | closeIntake | dropIntakeSender => exact h h'

end Step

namespace Session

/-- The messages that some steps read from the inbox of the client at position `k`. -/
def taken (k : Nat) : List Step → Session → List Message
  | [], _ => []
  | a :: as, s => (s.registry.clients[k]?).elim [] (a.takes k) ++ taken k as (s.next a)

/-- The steps up to the one that takes the client at position `k` out of the
registry: a broadcast that its inbox refuses, or a shutdown. -/
def whileRegistered (k : Nat) : List Step → Session → List Step
  | [], _ => []
  | a :: as, s =>
    if (s.registry.clients[k]?).any a.dismisses then [] else a :: whileRegistered k as (s.next a)

variable {k : Nat} {c : Client} {s : Session}

theorem receiver_ne_gone_of_run {as : List Step} (h : (onClient k as c).inbox.receiver ≠ .gone) :
    c.inbox.receiver ≠ .gone := by
  induction as generalizing c with
  | nil => exact h
  | cons a as ih => exact Step.receiver_ne_gone (ih h)

theorem capacity_run (as : List Step) :
    (onClient k as c).inbox.capacity = c.inbox.capacity := by
  induction as generalizing c with
  | nil => rfl
  | cons a as ih => exact ih.trans Step.capacity_onClient

theorem senders_run (as : List Step) (h : c.registered = false → c.inbox.senders = 0)
    (h' : (onClient k as c).registered = false) : (onClient k as c).inbox.senders = 0 := by
  induction as generalizing c with
  | nil => exact h h'
  | cons a as ih => exact ih (Step.senders_onClient h) h'

/-- Nothing is delivered to a client that has left the registry. -/
theorem run_of_left (as : List Step) (hc : s.registry.clients[k]? = some c)
    (hreg : c.registered = false) :
    (onClient k as c).registered = false ∧
      ((onClient k as c).inbox.receiver ≠ .gone →
        taken k as s ++ (onClient k as c).inbox.items = c.inbox.items) := by
  induction as generalizing s c with
  | nil => exact ⟨hreg, fun _ => rfl⟩
  | cons a as ih =>
      have hleft : (a.onClient k c).registered = false := by
        rw [Step.registered_onClient, hreg, Bool.false_and]
      obtain ⟨hend, hitems⟩ := ih (clients_next a hc) hleft
      refine ⟨hend, fun hgone => ?_⟩
      have hstep := Step.takes_append_items (receiver_ne_gone_of_run hgone)
      calc taken k (a :: as) s ++ (onClient k (a :: as) c).inbox.items
        _ = a.takes k c ++ (taken k as (s.next a) ++
              (onClient k as (a.onClient k c)).inbox.items) := by
            simp [taken, hc, onClient]
        _ = a.takes k c ++ (a.onClient k c).inbox.items := by rw [hitems hgone]
        _ = c.inbox.items := by simp [hstep, Step.gains, hreg]

theorem run_of_registered (as : List Step) (hc : s.registry.clients[k]? = some c)
    (hreg : c.registered = true) :
    ((onClient k as c).registered = true ↔ whileRegistered k as s = as) ∧
      ((onClient k as c).inbox.receiver ≠ .gone →
        taken k as s ++ (onClient k as c).inbox.items =
          c.inbox.items ++ broadcasts (whileRegistered k as s)) := by
  induction as generalizing s c with
  | nil => exact ⟨by simp [onClient, hreg, whileRegistered], fun _ => by simp [taken, onClient,
      broadcasts, whileRegistered]⟩
  | cons a as ih =>
      have htaken : taken k (a :: as) s = a.takes k c ++ taken k as (s.next a) := by
        simp [taken, hc]
      cases hdismisses : a.dismisses c with
      | true =>
          have hleft : (a.onClient k c).registered = false := by
            rw [Step.registered_onClient, hdismisses, Bool.not_true, Bool.and_false]
          have hwhile : whileRegistered k (a :: as) s = [] := by
            simp [whileRegistered, hc, hdismisses]
          obtain ⟨hend, hitems⟩ := run_of_left as (clients_next a hc) hleft
          refine ⟨?_, fun hgone => ?_⟩
          · rw [hwhile]
            simp [show (onClient k (a :: as) c).registered = false from hend]
          · have hstep := Step.takes_append_items (receiver_ne_gone_of_run hgone)
            rw [htaken, hwhile, List.append_assoc]
            exact (congrArg _ (hitems hgone)).trans (by simp [hstep, Step.gains, hdismisses,
              broadcasts])
      | false =>
          have hstays : (a.onClient k c).registered = true := by
            rw [Step.registered_onClient, hreg, hdismisses, Bool.not_false, Bool.and_true]
          have hwhile : whileRegistered k (a :: as) s = a :: whileRegistered k as (s.next a) := by
            simp [whileRegistered, hc, hdismisses]
          obtain ⟨hend, hitems⟩ := ih (clients_next a hc) hstays
          refine ⟨?_, fun hgone => ?_⟩
          · rw [hwhile, List.cons_inj_right]
            exact hend
          · have hstep := Step.takes_append_items (receiver_ne_gone_of_run hgone)
            rw [htaken, hwhile, List.append_assoc]
            refine (congrArg _ (hitems hgone)).trans ?_
            rw [← List.append_assoc, hstep, broadcasts_cons]
            simp [Step.gains, hreg, hdismisses]

theorem reads_of_left (hc : s.registry.clients[k]? = some c) (hsenders : c.inbox.senders = 0)
    (hgone : c.inbox.receiver ≠ .gone) :
    (s.step (.recv k)).1 = .read (c.inbox.items.head?.elim .disconnected .item) ∧
      (s.step (.drain k)).1 = .drained (c.inbox.items.map (·.id)) .disconnected := by
  have hover : c.inbox.isOver = true := by simp [Mailbox.isOver, hsenders]
  constructor
  · simp only [step, client?, hc, stepClient, recv, if_neg hgone, Mailbox.take]
    cases c.inbox.items <;> simp [hover, Read.ofTaken]
  · simp [step, client?, hc, stepClient, drain, hgone, hover]

theorem registry_capacity_next (s : Session) (a : Step) :
    (s.next a).registry.capacity = s.registry.capacity := by
  cases ha : client? a with
  | some j =>
      simp only [next, step, ha]
      cases hj : s.registry.clients[j]? with
      | none => rfl
      | some c =>
          cases a with
          | send i m =>
              simp only [stepClient]
              split <;> rfl
          | recv | drain | closeInbox | dropInbox | dropClient | stop =>
              simp [stepClient, modify]
          | register | broadcast | intake | closeIntake | dropIntakeSender | shutDown => cases ha
  | none =>
      cases a with
      | register =>
          simp only [next, step, client?, Registry.register]
          cases Mailbox.create s.registry.capacity <;> rfl
      | dropIntakeSender =>
          simp only [next, step, client?]
          split <;> rfl
      | broadcast | shutDown | intake | closeIntake => rfl
      | recv | drain | closeInbox | dropInbox | dropClient | stop | send => cases ha

theorem registry_capacity_run (s : Session) (as : List Step) :
    (s.run as).registry.capacity = s.registry.capacity := by
  induction as generalizing s with
  | nil => rfl
  | cons a as ih => exact (ih (s.next a)).trans (registry_capacity_next s a)

theorem start_eq_ok {capacity outbox : Nat} {start : Session}
    (h : Session.start capacity outbox = .ok start) : start.registry = { capacity } := by
  obtain ⟨intake, -, h⟩ := exists_of_bind_eq_ok h
  cases h
  rfl

theorem register_of_capacity (hpos : 0 < s.registry.capacity)
    (hmax : s.registry.capacity ≤ maxCapacity) :
    (s.step .register).1 = .registered s.registry.nextId ∧
      (s.next .register).registry.clients[s.registry.clients.length]? =
        some { id := s.registry.nextId, inbox := { capacity := s.registry.capacity } } := by
  have hcreate : (Mailbox.create s.registry.capacity : Except CapacityError (Mailbox Message)) =
      .ok { capacity := s.registry.capacity } := by
    rw [Mailbox.create, if_neg (by omega), if_neg (by omega)]
  simp [next, step, client?, Registry.register, hcreate]

end Session

/-- Every client of a run was registered at some step of it. If it has not dropped its
inbox, what it has taken since and what its inbox still holds are the messages
broadcast while it was registered. Once it has left, nothing more comes: its reads
give what was left in the inbox, and that the queue is disconnected after that. -/
theorem exact_delivery {capacity outbox : Nat} {start : Session} {as : List Step} {k : Nat}
    {c : Client} (hpos : 0 < capacity) (hmax : capacity ≤ maxCapacity)
    (hstart : Session.start capacity outbox = .ok start)
    (hc : (start.run as).registry.clients[k]? = some c) :
    ∃ before after id, as = before ++ .register :: after ∧
      let joining := start.run before
      let joined := joining.next .register
      joining.registry.clients.length = k ∧ (joining.step .register).1 = .registered id ∧
      c.inbox.capacity = capacity ∧
      (c.registered = true ↔ joined.whileRegistered k after = after) ∧
      (c.inbox.receiver ≠ .gone →
        joined.taken k after ++ c.inbox.items = broadcasts (joined.whileRegistered k after)) ∧
      (c.registered = false → ∀ more, ∃ c',
        (start.run (as ++ more)).registry.clients[k]? = some c' ∧ c'.registered = false ∧
        (c'.inbox.receiver ≠ .gone →
          (start.run as).taken k more ++ c'.inbox.items = c.inbox.items ∧
          ((start.run (as ++ more)).step (.recv k)).1 =
            .read (c'.inbox.items.head?.elim .disconnected .item) ∧
          ((start.run (as ++ more)).step (.drain k)).1 =
            .drained (c'.inbox.items.map (·.id)) .disconnected)) := by
  have hempty := Session.start_eq_ok hstart
  obtain ⟨before, after, rfl, hlen⟩ := Session.exists_register as (by simp [hempty])
    (List.getElem?_eq_some_iff.mp hc).1
  have hcapacity : (start.run before).registry.capacity = capacity := by
    rw [Session.registry_capacity_run, hempty]
  obtain ⟨hreply, hclient⟩ :=
    Session.register_of_capacity (hcapacity ▸ hpos) (hcapacity ▸ hmax)
  rw [hlen, hcapacity] at hclient
  have hrun : start.run (before ++ .register :: after) =
      ((start.run before).next .register).run after := Session.run_append start before _
  obtain ⟨hregistered, hitems⟩ := Session.run_of_registered after hclient rfl
  -- The client at the end of the run is the one that was registered, followed to there.
  rw [hrun, Session.clients_run after hclient] at hc
  cases hc
  refine ⟨before, after, _, rfl, hlen, hreply, Session.capacity_run after, hregistered,
    by simpa using hitems, fun hleft more => ?_⟩
  have hend := Session.clients_run after hclient
  rw [Session.run_append start, hrun]
  obtain ⟨hleft', hitems'⟩ := Session.run_of_left more hend hleft
  have hsenders := Session.senders_run more (Session.senders_run after (by simp)) hleft'
  refine ⟨_, Session.clients_run more hend, hleft', fun hgone => ⟨hitems' hgone, ?_⟩⟩
  exact Session.reads_of_left (Session.clients_run more hend) hsenders hgone

theorem exact_delivery_full_inbox :
    let m : Message := ⟨"message", none, 0⟩
    let as := [Step.register, .broadcast m, .broadcast m, .recv 0]
    let start : Session := { registry := { capacity := 1 }, intake := { capacity := 1 } }
    let c : Client := { id := 0, inbox := { capacity := 1, senders := 0 }, registered := false }
    Session.start 1 1 = .ok start ∧ (start.run as).registry.clients[0]? = some c ∧
      ∃ before after, as = before ++ .register :: after ∧
        let joined := (start.run before).next .register
        joined.taken 0 after ++ c.inbox.items = broadcasts (joined.whileRegistered 0 after) := by
  intro m as start c
  have hstart : Session.start 1 1 = .ok start := rfl
  have hc : (start.run as).registry.clients[0]? = some c := rfl
  obtain ⟨before, after, id, has, -, -, -, -, hdelivered, -⟩ :=
    exact_delivery (by decide) (by decide) hstart hc
  exact ⟨hstart, hc, before, after, has, hdelivered (by decide)⟩

end HookRelay.Registry
