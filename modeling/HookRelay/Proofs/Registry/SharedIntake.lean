import HookRelay.Proofs.Registry.Separation
import Mathlib.Data.List.Basic
import Mathlib.Data.List.Count
import Mathlib.Data.List.Induction

namespace HookRelay

namespace Mailbox

variable {α : Type} {m : Mailbox α} {a : α}

theorem offer_fst_eq_closed_iff : (m.offer a).1 = .closed ↔ m.receiver ≠ .listening := by
  unfold offer isListening
  split
  · simp_all
  · split <;> simp_all

theorem offer_fst_eq_full_iff :
    (m.offer a).1 = .full ↔ m.receiver = .listening ∧ m.capacity ≤ m.items.length := by
  unfold offer isListening hasRoom
  split
  · simp_all
  · split <;> simp_all

theorem offer_snd (m : Mailbox α) (a : α) : (m.offer a).2 =
    { m with items := m.items ++ if (m.offer a).1 = .accepted then [a] else [] } := by
  unfold offer
  split
  · simp
  · split <;> simp

theorem take_snd (m : Mailbox α) : m.take.2 = { m with items := m.items.tail } := by
  obtain ⟨capacity, items, receiver, senders⟩ := m
  cases items <;> rfl

theorem take_fst_eq_disconnected_iff :
    m.take.1 = .disconnected ↔
      m.items = [] ∧ (m.receiver ≠ .listening ∨ m.senders = 0) := by
  cases hitems : m.items with
  | nil =>
      simp only [take, hitems, isOver, isListening]
      by_cases hlistening : m.receiver = .listening <;> simp [hlistening]
  | cons b rest => simp [take, hitems]

theorem length_offer_le (h : m.items.length ≤ m.capacity) (a : α) :
    (m.offer a).2.items.length ≤ m.capacity := by
  unfold offer hasRoom
  split
  · exact h
  · split
    · exact h
    · next hroom =>
      rw [Bool.not_eq_true, Bool.not_eq_false', decide_eq_true_iff] at hroom
      rw [List.length_append]
      exact hroom

end Mailbox

namespace Registry

namespace Session

theorem count_set_false {xs : List Bool} {k : Nat} (h : xs.getD k false = true) :
    (xs.set k false).count true + 1 = xs.count true := by
  induction xs generalizing k with
  | nil => cases h
  | cons x xs ih =>
      cases k with
      | zero =>
          obtain rfl : x = true := h
          simp
      | succ k =>
          have hrest := ih (k := k) h
          rw [List.set_cons_succ, List.count_cons, List.count_cons]
          omega

/-- Whether the client at position `k` is there and still has its sender into the intake. -/
def canSend (s : Session) (k : Nat) : Bool :=
  k < s.registry.clients.length && s.sending.getD k false

/-- Whether the step finds nobody who could send and does nothing to the intake. -/
def passesBy (s : Session) : Step → Bool
  | .send k _ | .dropClient k => !s.canSend k
  | .dropIntakeSender => !s.spareSender
  | .intake | .closeIntake => false
  | .register | .broadcast _ | .recv _ | .drain _ | .closeInbox _ | .dropInbox _ | .stop _
  | .shutDown => true

/-- Whether this answers a message that was sent. -/
def isOffered : Reply → Bool
  | .offered _ => true
  | .none | .registered _ | .refused _ | .pruned _ | .read _ | .drained _ _ | .senderDropped
  | .noClient _ _ => false

/-- What a step does to the intake and to those who send into it. -/
inductive IntakeTurn (s : Session) : Step → Reply → Session → Prop
  | register {id : UInt64} {registry : Registry} :
      registry.clients.length = s.registry.clients.length + 1 →
      IntakeTurn s .register (.registered id)
        { s with registry, intake := s.intake.addSender, sending := s.sending ++ [true] }
  | dropClient {k : Nat} {registry : Registry} : s.canSend k = true →
      registry.clients.length = s.registry.clients.length →
      IntakeTurn s (.dropClient k) .none
        { s with registry, intake := s.intake.dropSender, sending := s.sending.set k false }
  | send {k : Nat} {m : Message} : s.canSend k = true →
      IntakeTurn s (.send k m) (.offered (s.intake.offer m).1)
        { s with intake := (s.intake.offer m).2 }
  | intake : IntakeTurn s .intake (.read (.ofTaken s.intake.take.1))
      { s with intake := s.intake.take.2 }
  | closeIntake : IntakeTurn s .closeIntake .none { s with intake := s.intake.close }
  | dropIntakeSender : s.spareSender = true →
      IntakeTurn s .dropIntakeSender .none
        { s with spareSender := false, intake := s.intake.dropSender }
  | aside {a : Step} {r : Reply} {registry : Registry} : s.passesBy a = true →
      isOffered r = false → registry.clients.length = s.registry.clients.length →
      IntakeTurn s a r { s with registry }

variable {k outbox : Nat} {a : Step} {as : List Step} {s s' start : Session} {r : Reply}
  {m : Message}

theorem canSend_eq_false {c? : Option Client} (hc : s.registry.clients[k]? = c?)
    (h : c? = none ∨ s.sending.getD k false = false) : s.canSend k = false := by
  rcases h with rfl | h
  · have hlow := List.getElem?_eq_none_iff.mp hc
    simp [canSend, Nat.not_lt.mpr hlow]
  · rw [canSend, h, Bool.and_false]

theorem canSend_eq_true {c : Client} (hc : s.registry.clients[k]? = some c)
    (h : s.sending.getD k false = true) : s.canSend k = true := by
  rw [canSend, h, Bool.and_true, decide_eq_true_iff]
  exact (List.getElem?_eq_some_iff.mp hc).1

theorem length_modify (registry : Registry) (k : Nat) (f : Client → Client) :
    (registry.modify k f).clients.length = registry.clients.length :=
  List.length_modify ..

theorem intakeTurn_step (s : Session) (a : Step) : IntakeTurn s a (s.step a).1 (s.next a) := by
  cases ha : client? a with
  | some j =>
      cases hc : s.registry.clients[j]? with
      | none =>
          have hpasses : s.passesBy a = true := by
            have hcannot := canSend_eq_false hc (.inl rfl)
            cases a <;> cases ha <;> simp [passesBy, hcannot]
          simp only [next, step, ha, hc]
          exact .aside hpasses rfl rfl
      | some c =>
          simp only [next, step, ha, hc]
          cases a with
          | recv | drain | closeInbox | dropInbox | stop =>
              exact .aside rfl rfl (length_modify ..)
          | dropClient i =>
              cases ha
              simp only [stepClient, dropSender]
              split
              · next hsending => exact .dropClient (canSend_eq_true hc hsending) (length_modify ..)
              · next hsending =>
                have hcannot := canSend_eq_false hc (.inr (Bool.eq_false_iff.mpr hsending))
                exact .aside (by simp [passesBy, hcannot]) rfl (length_modify ..)
          | send i m =>
              cases ha
              simp only [stepClient]
              split
              · next hsending => exact .send (canSend_eq_true hc hsending)
              · next hsending =>
                have hcannot := canSend_eq_false hc (.inr (Bool.eq_false_iff.mpr hsending))
                exact .aside (by simp [passesBy, hcannot]) rfl rfl
          | register | broadcast | intake | closeIntake | dropIntakeSender | shutDown => cases ha
  | none =>
      cases a with
      | register =>
          simp only [next, step, client?, Registry.register]
          cases (Mailbox.create s.registry.capacity : Except CapacityError (Mailbox Message)) with
          | error e => exact .aside rfl rfl rfl
          | ok inbox => exact .register (by simp)
      | broadcast m => exact .aside rfl rfl (by simp)
      | shutDown => exact .aside rfl rfl (by simp [Registry.shutDown])
      | intake => exact .intake
      | closeIntake => exact .closeIntake
      | dropIntakeSender =>
          simp only [next, step, client?]
          split
          · next hspare => exact .dropIntakeSender hspare
          · next hspare => exact .aside (by simp [passesBy, hspare]) rfl rfl
      | recv | drain | closeInbox | dropInbox | dropClient | stop | send => cases ha

/-- The message that a step has put into the intake, going by its answer. -/
def put : Step → Reply → List Message
  | .send _ m, .offered .accepted => [m]
  | _, _ => []

/-- The message that a step has taken out of the intake, going by its answer. -/
def takenBy : Step → Reply → List Message
  | .intake, .read (.item m) => [m]
  | _, _ => []

/-- The messages whose sending was answered with their acceptance, in the order in which they
were sent. -/
def accepted : List Step → Session → List Message := seen fun a s => put a (s.step a).1

/-- The messages that were taken out of the intake, in order. -/
def takenOut : List Step → Session → List Message := seen fun a s => takenBy a (s.step a).1

/-- Whether one of the steps dropped the client at position `k`. -/
def Dropped (k : Nat) (as : List Step) (s : Session) : Prop :=
  ∃ before after, as = before ++ .dropClient k :: after ∧
    k < (s.run before).registry.clients.length

theorem put_of_not_isOffered (h : isOffered r = false) : put a r = [] := by
  unfold put
  split
  · cases h
  · rfl

theorem takenBy_of_ne_intake (h : a ≠ .intake) : takenBy a r = [] := by
  unfold takenBy
  split
  · exact absurd rfl h
  · rfl

namespace IntakeTurn

theorem balance (h : IntakeTurn s a r s') :
    takenBy a r ++ s'.intake.items = s.intake.items ++ put a r := by
  cases h with
  | @send k m hsend =>
      rw [Mailbox.offer_snd]
      cases (s.intake.offer m).1 <;> rfl
  | intake =>
      rw [Mailbox.take_snd, Mailbox.take]
      cases s.intake.items with
      | nil => cases s.intake.isOver <;> rfl
      | cons m rest => exact (List.append_nil _).symm
  | aside hpasses hoffered =>
      have hne : a ≠ .intake := by
        rintro rfl
        cases hpasses
      rw [takenBy_of_ne_intake hne, put_of_not_isOffered hoffered, List.append_nil]
      rfl
  | register | dropClient | closeIntake | dropIntakeSender => exact (List.append_nil _).symm

theorem receiver (h : IntakeTurn s a r s') : s'.intake.receiver =
    if a = .closeIntake then s.intake.close.receiver else s.intake.receiver := by
  cases h with
  | send =>
      rw [Mailbox.offer_snd]
      exact (if_neg Step.noConfusion).symm
  | intake =>
      rw [Mailbox.take_snd]
      exact (if_neg Step.noConfusion).symm
  | aside hpasses =>
      rw [if_neg]
      rintro rfl
      cases hpasses
  | register | dropClient | closeIntake | dropIntakeSender => rfl

theorem capacity (h : IntakeTurn s a r s') : s'.intake.capacity = s.intake.capacity := by
  cases h with
  | send => rw [Mailbox.offer_snd]
  | intake => rw [Mailbox.take_snd]
  | register | dropClient | closeIntake | dropIntakeSender | aside => rfl

theorem length_le (h : IntakeTurn s a r s') (hle : s.intake.items.length ≤ s.intake.capacity) :
    s'.intake.items.length ≤ s.intake.capacity := by
  cases h with
  | @send k m hsend => exact Mailbox.length_offer_le hle m
  | intake =>
      rw [Mailbox.take_snd]
      exact Nat.le_trans (List.length_tail ▸ Nat.sub_le _ _) hle
  | register | dropClient | closeIntake | dropIntakeSender | aside => exact hle

theorem length_clients (h : IntakeTurn s a r s') :
    s'.registry.clients.length = s.registry.clients.length ∨
      s'.registry.clients.length = s.registry.clients.length + 1 := by
  cases h with
  | register hlength => exact .inr hlength
  | dropClient _ hlength | aside _ _ hlength => exact .inl hlength
  | send | intake | closeIntake | dropIntakeSender => exact .inl rfl

theorem spareSender (h : IntakeTurn s a r s') :
    s'.spareSender = true ↔ s.spareSender = true ∧ a ≠ .dropIntakeSender := by
  cases h with
  | aside hpasses =>
      refine (and_iff_left_of_imp fun hspare => ?_).symm
      rintro rfl
      rw [passesBy, show s.spareSender = true from hspare] at hpasses
      cases hpasses
  | register | dropClient | send | intake | closeIntake | dropIntakeSender => simp

theorem length_sending (h : IntakeTurn s a r s')
    (hlength : s.sending.length = s.registry.clients.length) :
    s'.sending.length = s'.registry.clients.length := by
  cases h with
  | register hmore => rw [hmore, List.length_append, hlength, List.length_singleton]
  | dropClient _ hsame => rw [hsame, List.length_set, hlength]
  | aside _ _ hsame => rw [hsame, hlength]
  | send | intake | closeIntake | dropIntakeSender => exact hlength

theorem canSend_iff (h : IntakeTurn s a r s')
    (hlength : s.sending.length = s.registry.clients.length) :
    s'.canSend k = true ↔ s.canSend k = true ∧ a ≠ .dropClient k ∨
      k = s.registry.clients.length ∧ k < s'.registry.clients.length := by
  cases h with
  | register hmore =>
      simp only [canSend, hmore]
      grind
  | @dropClient j _ hsend hsame =>
      simp only [canSend, hsame]
      grind
  | aside hpasses _ hsame =>
      have hkept : s.canSend k = true → a ≠ .dropClient k := by
        rintro hsend rfl
        rw [passesBy, hsend] at hpasses
        cases hpasses
      rw [and_iff_left_of_imp hkept]
      simp only [canSend, hsame]
      exact (or_iff_left (by omega)).symm
  | send | intake | closeIntake | dropIntakeSender =>
      simp only [canSend, ne_eq, reduceCtorEq, not_false_eq_true, and_true]
      exact (or_iff_left (by omega)).symm

theorem senders (h : IntakeTurn s a r s')
    (hsenders : s.intake.senders = s.sending.count true + s.spareSender.toNat) :
    s'.intake.senders = s'.sending.count true + s'.spareSender.toNat := by
  cases h with
  | register =>
      rw [List.count_append, List.count_singleton_self, Nat.add_right_comm, ← hsenders]
      rfl
  | @dropClient k _ hsend =>
      have hone := count_set_false (Bool.and_eq_true_iff.mp hsend).2
      change s.intake.senders - 1 = (s.sending.set k false).count true + s.spareSender.toNat
      omega
  | send => rw [Mailbox.offer_snd, hsenders]
  | intake => rw [Mailbox.take_snd, hsenders]
  | dropIntakeSender hspare =>
      rw [hspare] at hsenders
      change s.intake.senders - 1 = _
      rw [hsenders]
      rfl
  | closeIntake | aside => exact hsenders

end IntakeTurn

/-- What some steps have made of the intake and of those who send into it. -/
structure Shares (outbox : Nat) (as : List Step) (start s : Session) : Prop where
  capacity : s.intake.capacity = outbox
  receiver : s.intake.receiver = if .closeIntake ∈ as then .closed else .listening
  length_le : s.intake.items.length ≤ s.intake.capacity
  length_sending : s.sending.length = s.registry.clients.length
  canSend_iff : ∀ k, s.canSend k = true ↔
    k < s.registry.clients.length ∧ ¬Dropped k as start
  spareSender : s.spareSender = true ↔ .dropIntakeSender ∉ as
  senders : s.intake.senders = s.sending.count true + s.spareSender.toNat

theorem length_clients_le_run (s : Session) (as : List Step) :
    s.registry.clients.length ≤ (s.run as).registry.clients.length := by
  induction as generalizing s with
  | nil => exact Nat.le_refl _
  | cons a as ih =>
      refine Nat.le_trans ?_ (ih (s.next a))
      rcases (intakeTurn_step s a).length_clients with hsame | hmore
      · exact Nat.le_of_eq hsame.symm
      · exact hmore ▸ Nat.le_succ _

theorem Dropped.lt (h : Dropped k as s) : k < (s.run as).registry.clients.length := by
  obtain ⟨before, after, rfl, hk⟩ := h
  rw [run_append]
  exact Nat.lt_of_lt_of_le hk (length_clients_le_run _ _)

theorem dropped_concat : Dropped k (as ++ [a]) s ↔
    Dropped k as s ∨ a = .dropClient k ∧ k < (s.run as).registry.clients.length := by
  constructor
  · rintro ⟨before, after, has, hk⟩
    rcases Steps.exists_of_concat_eq has with ⟨rfl, rfl⟩ | ⟨after, rfl⟩
    · exact .inr ⟨rfl, hk⟩
    · exact .inl ⟨before, after, rfl, hk⟩
  · rintro (⟨before, after, rfl, hk⟩ | ⟨rfl, hk⟩)
    · exact ⟨before, after ++ [a], by simp, hk⟩
    · exact ⟨as, [], rfl, hk⟩

theorem Shares.turn (h : Shares outbox as start (start.run as))
    (hturn : IntakeTurn (start.run as) a r s') : Shares outbox (as ++ [a]) start s' where
  capacity := hturn.capacity.trans h.capacity
  receiver := by
    rw [hturn.receiver, Mailbox.close, h.receiver]
    by_cases ha : a = .closeIntake <;> by_cases has : Step.closeIntake ∈ as <;>
      simp [ha, has, eq_comm]
  length_le := hturn.capacity ▸ hturn.length_le h.length_le
  length_sending := hturn.length_sending h.length_sending
  canSend_iff k := by
    have hlength := hturn.length_clients
    have hlt : Dropped k as start → k < (start.run as).registry.clients.length := Dropped.lt
    rw [hturn.canSend_iff h.length_sending, h.canSend_iff, dropped_concat]
    grind
  spareSender := by
    rw [hturn.spareSender, h.spareSender]
    simp [eq_comm]
  senders := hturn.senders h.senders

theorem shares_start {capacity : Nat} (hstart : Session.start capacity outbox = .ok start) :
    Shares outbox [] start start ∧ start.intake.items = [] := by
  obtain ⟨intake, hcreate, h⟩ := exists_of_bind_eq_ok hstart
  cases Mailbox.eq_of_create hcreate
  cases h
  exact ⟨{
    capacity := rfl
    receiver := rfl
    length_le := Nat.zero_le _
    length_sending := rfl
    canSend_iff := fun k => by simp [canSend]
    spareSender := by simp
    senders := rfl }, rfl⟩

theorem shares_run {capacity : Nat} (hstart : Session.start capacity outbox = .ok start)
    (as : List Step) : Shares outbox as start (start.run as) := by
  induction as using List.reverseRecOn with
  | nil => exact (shares_start hstart).1
  | append_singleton as a ih =>
      rw [run_append]
      exact ih.turn (intakeTurn_step _ a)

theorem balance_run (s : Session) (as : List Step) :
    takenOut as s ++ (s.run as).intake.items = s.intake.items ++ accepted as s := by
  induction as generalizing s with
  | nil => exact (List.append_nil _).symm
  | cons a as ih =>
      calc takenOut (a :: as) s ++ (s.run (a :: as)).intake.items
        _ = takenBy a (s.step a).1 ++ (takenOut as (s.next a) ++
              ((s.next a).run as).intake.items) := List.append_assoc ..
        _ = takenBy a (s.step a).1 ++ (s.next a).intake.items ++ accepted as (s.next a) := by
            rw [ih, List.append_assoc]
        _ = s.intake.items ++ accepted (a :: as) s := by
            rw [(intakeTurn_step s a).balance, List.append_assoc]
            rfl

theorem step_send (hsend : s.canSend k = true) (m : Message) :
    (s.step (.send k m)).1 = .offered (s.intake.offer m).1 := by
  have hturn := intakeTurn_step s (.send k m)
  generalize (s.step (.send k m)).1 = r, s.next (.send k m) = s' at hturn
  cases hturn with
  | send => rfl
  | aside hpasses =>
      rw [passesBy, hsend] at hpasses
      cases hpasses

theorem step_send_of_dropped (hthere : k < s.registry.clients.length)
    (hcannot : s.canSend k = false) (m : Message) : (s.step (.send k m)).1 = .senderDropped := by
  have hc := List.getElem?_eq_getElem hthere
  rw [canSend, decide_eq_true hthere, Bool.true_and] at hcannot
  simp only [step, client?, hc, stepClient, hcannot, Bool.false_eq_true, if_false]

/-- Nobody can send any more when the sender that belongs to no client and all clients have been
dropped. -/
theorem Shares.senders_eq_zero_iff (h : Shares outbox as start s) :
    s.intake.senders = 0 ↔ .dropIntakeSender ∈ as ∧
      ∀ k < s.registry.clients.length, Dropped k as start := by
  have hspare : s.spareSender.toNat = 0 ↔ .dropIntakeSender ∈ as := by
    rw [← not_iff_not, ← h.spareSender]
    cases s.spareSender <;> simp
  have hclients : s.sending.count true = 0 ↔
      ∀ k < s.registry.clients.length, Dropped k as start := by
    rw [List.count_eq_zero, List.mem_iff_getElem?, not_exists]
    refine forall_congr' fun k => ?_
    have hcan := h.canSend_iff k
    have hlength := h.length_sending
    simp only [canSend, List.getD_eq_getElem?_getD] at hcan
    grind
  rw [h.senders, Nat.add_eq_zero_iff, hspare, hclients, and_comm]

end Session

open Session

/-- In any session the messages taken out of the intake, followed by those still in it, are the
messages whose sending was answered with their acceptance, in the order in which they were
sent. What a client is answered depends on the intake alone, whether the client is
registered, has been pruned or was shut down, as long as it has not been dropped: the intake
is closed, or it is full, or it takes the message. It is disconnected when nothing is left in
it and nothing can come, because it is closed or nobody has a sender any more. -/
theorem intake_conserved {capacity outbox : Nat} {start : Session} (as : List Step)
    (hstart : Session.start capacity outbox = .ok start) :
    let s := start.run as
    takenOut as start ++ s.intake.items = accepted as start ∧
    s.intake.items.length ≤ outbox ∧
    (∀ k m, k < s.registry.clients.length → ¬Dropped k as start →
      ∃ o, (s.step (.send k m)).1 = .offered o ∧
        (o = .closed ↔ .closeIntake ∈ as) ∧
        (o = .full ↔ .closeIntake ∉ as ∧ s.intake.items.length = outbox)) ∧
    (∀ k m, Dropped k as start → (s.step (.send k m)).1 = .senderDropped) ∧
    ∃ t, (s.step .intake).1 = .read (.ofTaken t) ∧
      (∀ m, t = .item m ↔ s.intake.items.head? = some m) ∧
      (t = .disconnected ↔ s.intake.items = [] ∧
        (.closeIntake ∈ as ∨
          .dropIntakeSender ∈ as ∧ ∀ k < s.registry.clients.length, Dropped k as start)) := by
  intro s
  have hshares : Shares outbox as start s := shares_run hstart as
  have hclosed : s.intake.receiver ≠ .listening ↔ .closeIntake ∈ as := by
    rw [hshares.receiver]
    split <;> simp_all
  refine ⟨?_, hshares.capacity ▸ hshares.length_le, ?_, ?_, s.intake.take.1, rfl, ?_, ?_⟩
  · rw [balance_run, (shares_start hstart).2]
    rfl
  · intro k m hthere hkept
    refine ⟨_, step_send ((hshares.canSend_iff k).mpr ⟨hthere, hkept⟩) m,
      Mailbox.offer_fst_eq_closed_iff.trans hclosed, Mailbox.offer_fst_eq_full_iff.trans ?_⟩
    have hroom := hshares.length_le
    rw [hshares.capacity] at hroom ⊢
    rw [← hclosed, not_not]
    exact and_congr_right fun _ => ⟨Nat.le_antisymm hroom, Nat.le_of_eq ∘ Eq.symm⟩
  · intro k m hdropped
    have hcannot : ¬s.canSend k = true :=
      fun hcan => ((hshares.canSend_iff k).mp hcan).2 hdropped
    exact step_send_of_dropped hdropped.lt (Bool.eq_false_iff.mpr hcannot) m
  · intro m
    rw [Mailbox.take]
    cases s.intake.items with
    | nil => cases s.intake.isOver <;> simp
    | cons m' rest => simp
  · rw [Mailbox.take_fst_eq_disconnected_iff, hclosed, hshares.senders_eq_zero_iff]

/-- Both clients are pruned and still send until the intake is full; then one of them is
dropped, and so is the sender that belongs to nobody. -/
theorem intake_conserved_past_pruning :
    let m : Message := ⟨"message", none, 0⟩
    let m' : Message := ⟨"message", none, 1⟩
    let as := [Step.register, .register, .broadcast m, .broadcast m, .send 0 m, .send 1 m',
      .intake, .shutDown, .send 1 m, .dropClient 0, .dropIntakeSender]
    let start : Session := { registry := { capacity := 1 }, intake := { capacity := 2 } }
    Session.start 1 2 = .ok start ∧ (start.run as).registry.size = 0 ∧
      takenOut as start = [m] ∧
      takenOut as start ++ (start.run as).intake.items = accepted as start ∧
      accepted as start = [m, m', m] ∧
      ((start.run as).step (.send 0 m)).1 = .senderDropped ∧
      ∃ o, ((start.run as).step (.send 1 m)).1 = .offered o ∧
        (o = .full ↔ .closeIntake ∉ as ∧ (start.run as).intake.items.length = 2) := by
  intro m m' as start
  have hstart : Session.start 1 2 = .ok start := rfl
  obtain ⟨hbalance, -, hsend, hdropped, -⟩ := intake_conserved as hstart
  have hfirst : Dropped 0 as start := ⟨as.take 9, _, rfl, by decide⟩
  have hsecond : ¬Dropped 1 as start :=
    (((shares_run hstart as).canSend_iff 1).mp (by decide)).2
  obtain ⟨o, ho, -, hfull⟩ := hsend 1 m (by decide) hsecond
  exact ⟨hstart, by decide, by decide, hbalance, by decide, hdropped 0 m hfirst, o, ho, hfull⟩

end Registry

end HookRelay
