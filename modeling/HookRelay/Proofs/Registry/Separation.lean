import HookRelay.Proofs.Registry.Client
import HookRelay.Proofs.Steps

namespace HookRelay.Registry

/-- Whether the step is addressed to the inbox or the stop signal of a client. -/
def Step.isTo (client : Nat) : Step → Bool
  | .recv k | .drain k | .closeInbox k | .dropInbox k | .dropClient k | .stop k => k == client
  | _ => false

def Step.isReadOf (client : Nat) : Step → Bool
  | .recv k | .drain k => k == client
  | _ => false

namespace Session

variable {β : Type} {client k : Nat} {a : Step} {as bs : List Step} {s t : Session}

/-- What can be seen of the steps of a session, each looked at in the state in which it is
taken. -/
def seen (look : Step → Session → List β) : List Step → Session → List β :=
  Steps.seen (fun a s => some (s.next a)) look

theorem seen_cons (look : Step → Session → List β) (a : Step) (as : List Step) (s : Session) :
    seen look (a :: as) s = look a s ++ seen look as (s.next a) := rfl

/-- What the reads of a client's inbox find. -/
def reads (client : Nat) : List Step → Session → List Reply :=
  seen fun a s => if a.isReadOf client then [(s.step a).1] else []

/-- Whether the client at position `k` is registered and whether it has been told to stop,
after each step that is not addressed to `client`. -/
def standings (client k : Nat) : List Step → Session → List (Option (Bool × Bool)) :=
  seen fun a s =>
    if a.isTo client then []
    else [(s.next a).registry.clients[k]?.map fun c => (c.registered, c.stopped)]

/-- The registered clients but one, in the registry's order. -/
def liveBut (client : Nat) (s : Session) : List UInt64 :=
  ((s.registry.clients.eraseIdx client).filter (·.registered)).map (·.id)

/-- The other registered clients after each step that is not addressed to `client`. -/
def orders (client : Nat) : List Step → Session → List (List UInt64) :=
  seen fun a s => if a.isTo client then [] else [(s.next a).liveBut client]

/-- Both registries have the same clients, save for the one at a position. -/
structure AgreeBut (client : Nat) (s t : Session) : Prop where
  capacity : s.registry.capacity = t.registry.capacity
  nextId : s.registry.nextId = t.registry.nextId
  length : s.registry.clients.length = t.registry.clients.length
  clients : ∀ k, k ≠ client → s.registry.clients[k]? = t.registry.clients[k]?

theorem client?_of_isTo (h : a.isTo client = true) : client? a = some client := by
  cases a with
  | recv | drain | closeInbox | dropInbox | dropClient | stop =>
      exact congrArg some (eq_of_beq h)
  | register | broadcast | send | intake | closeIntake | dropIntakeSender | shutDown => cases h

theorem registry_next_of_isTo (s : Session) (h : a.isTo client = true) :
    ∃ f, (s.next a).registry = s.registry.modify client f := by
  simp only [next, step, client?_of_isTo h]
  cases hc : s.registry.clients[client]? with
  | none =>
      refine ⟨id, ?_⟩
      rw [modify, List.modify_id]
  | some c =>
      cases a with
      | recv | drain | closeInbox | dropInbox | stop => exact ⟨_, rfl⟩
      | dropClient =>
          refine ⟨fun c => { c with inbox := c.inbox.dropReceiver }, ?_⟩
          change (s.dropSender client).registry.modify client _ = _
          rw [registry_dropSender]
      | register | broadcast | send | intake | closeIntake | dropIntakeSender | shutDown => cases h

/-- Only a registration changes more of a registry than its clients. -/
theorem exists_clients_next (s : Session) (h : a ≠ .register) :
    ∃ clients, (s.next a).registry = { s.registry with clients } := by
  cases ha : client? a with
  | some j =>
      simp only [next, step, ha]
      cases hc : s.registry.clients[j]? with
      | none => exact ⟨_, rfl⟩
      | some c =>
          cases a with
          | recv | drain | closeInbox | dropInbox | stop => exact ⟨_, rfl⟩
          | dropClient =>
              refine ⟨s.registry.clients.modify j fun c =>
                { c with inbox := c.inbox.dropReceiver }, ?_⟩
              change (s.dropSender j).registry.modify j _ = _
              rw [registry_dropSender]
              rfl
          | send =>
              simp only [stepClient]
              split
              · exact ⟨_, rfl⟩
              · exact ⟨_, rfl⟩
          | register | broadcast | intake | closeIntake | dropIntakeSender | shutDown => cases ha
  | none =>
      cases a with
      | register => exact absurd rfl h
      | broadcast | shutDown | intake | closeIntake => exact ⟨_, rfl⟩
      | dropIntakeSender =>
          simp only [next, step, client?]
          split
          · exact ⟨_, rfl⟩
          · exact ⟨_, rfl⟩
      | recv | drain | closeInbox | dropInbox | dropClient | stop | send => cases ha

namespace AgreeBut

theorem refl (client : Nat) (s : Session) : AgreeBut client s s :=
  ⟨rfl, rfl, rfl, fun _ _ => rfl⟩

theorem symm (h : AgreeBut client s t) : AgreeBut client t s :=
  ⟨h.capacity.symm, h.nextId.symm, h.length.symm, fun k hk => (h.clients k hk).symm⟩

theorem trans {u : Session} (h : AgreeBut client s t) (h' : AgreeBut client t u) :
    AgreeBut client s u :=
  ⟨h.capacity.trans h'.capacity, h.nextId.trans h'.nextId, h.length.trans h'.length,
    fun k hk => (h.clients k hk).trans (h'.clients k hk)⟩

theorem next_of_isTo (s : Session) (ha : a.isTo client = true) :
    AgreeBut client (s.next a) s := by
  obtain ⟨f, hregistry⟩ := registry_next_of_isTo s ha
  constructor
  · rw [hregistry]
    rfl
  · rw [hregistry]
    rfl
  · rw [hregistry]
    exact List.length_modify _ _ _
  · intro k hk
    rw [hregistry]
    exact List.getElem?_modify_ne f _ (Ne.symm hk)

theorem register (h : AgreeBut client s t) :
    AgreeBut client (s.next .register) (t.next .register) := by
  simp only [Session.next, step, client?, Registry.register, h.capacity]
  cases (Mailbox.create t.registry.capacity : Except CapacityError (Mailbox Message)) with
  | error e => exact ⟨rfl, congrArg (· + 1) h.nextId, h.length, h.clients⟩
  | ok inbox =>
      refine ⟨rfl, congrArg (· + 1) h.nextId, ?_, ?_⟩
      · simp only [List.length_append, h.length]
        rfl
      · intro k hk
        simp only [List.getElem?_append, h.length, h.nextId, h.clients k hk]

theorem next (h : AgreeBut client s t) (a : Step) : AgreeBut client (s.next a) (t.next a) := by
  by_cases ha : a = .register
  · subst ha
    exact h.register
  · obtain ⟨xs, hs⟩ := exists_clients_next s ha
    obtain ⟨ys, ht⟩ := exists_clients_next t ha
    have hlength : ∀ u : Session,
        (u.next a).registry.clients.length = u.registry.clients.length :=
      fun u => (length_clients_next u a).resolve_right fun hregister => ha hregister.1
    refine ⟨?_, ?_, ?_, ?_⟩
    · rw [hs, ht]
      exact h.capacity
    · rw [hs, ht]
      exact h.nextId
    · rw [hlength, hlength, h.length]
    · intro k hk
      -- What a step makes of a client depends on nothing but this client.
      cases hc : s.registry.clients[k]? with
      | some c => rw [clients_next a hc, clients_next a ((h.clients k hk).symm.trans hc)]
      | none =>
          have hlow := List.getElem?_eq_none_iff.mp hc
          rw [List.getElem?_eq_none (by rwa [hlength]),
            List.getElem?_eq_none (by rwa [hlength, ← h.length])]

theorem liveBut_eq (h : AgreeBut client s t) : s.liveBut client = t.liveBut client := by
  have hothers : s.registry.clients.eraseIdx client = t.registry.clients.eraseIdx client := by
    apply List.ext_getElem?
    intro k
    rw [List.getElem?_eraseIdx, List.getElem?_eraseIdx]
    split
    · next hlow => exact h.clients k (Nat.ne_of_lt hlow)
    · next hhigh => exact h.clients (k + 1) (by omega)
  rw [liveBut, liveBut, hothers]

theorem read_eq (h : AgreeBut client s t) (hk : k ≠ client) (hread : a.isReadOf k = true) :
    (s.step a).1 = (t.step a).1 := by
  have hclient := h.clients k hk
  cases a with
  | recv j | drain j =>
      obtain rfl : j = k := eq_of_beq hread
      simp only [step, client?, hclient, h.length]
      split
      · rfl
      · rfl
  | register | broadcast | closeInbox | dropInbox | dropClient | stop | send | intake | closeIntake
  | dropIntakeSender | shutDown => cases hread

end AgreeBut

theorem run_filter (h : AgreeBut client s t) :
    AgreeBut client (s.run as) (t.run (as.filter (!·.isTo client))) := by
  induction as generalizing s t with
  | nil => exact h
  | cons a as ih =>
      cases ha : a.isTo client with
      | true =>
          rw [List.filter_cons_of_neg (by simp [ha])]
          exact ih ((AgreeBut.next_of_isTo s ha).trans h)
      | false =>
          rw [List.filter_cons_of_pos (by simp [ha])]
          exact ih (h.next a)

/-- What is not changed by the state of one client, and cannot be seen of the steps addressed
to it, is the same without these steps. -/
theorem seen_filter {look : Step → Session → List β}
    (hto : ∀ a s, a.isTo client = true → look a s = [])
    (hothers : ∀ a s t, a.isTo client = false → AgreeBut client s t → look a s = look a t)
    (h : AgreeBut client s t) :
    seen look as s = seen look (as.filter (!·.isTo client)) t := by
  induction as generalizing s t with
  | nil => rfl
  | cons a as ih =>
      cases ha : a.isTo client with
      | true =>
          rw [List.filter_cons_of_neg (by simp [ha]), seen_cons, hto a s ha, List.nil_append]
          exact ih ((AgreeBut.next_of_isTo s ha).trans h)
      | false =>
          rw [List.filter_cons_of_pos (by simp [ha]), seen_cons, seen_cons, hothers a s t ha h]
          rw [ih (h.next a)]

theorem seen_eq {look : Step → Session → List β}
    (hto : ∀ a s, a.isTo client = true → look a s = [])
    (hothers : ∀ a s t, a.isTo client = false → AgreeBut client s t → look a s = look a t)
    (s : Session) (h : as.filter (!·.isTo client) = bs.filter (!·.isTo client)) :
    seen look as s = seen look bs s := by
  rw [seen_filter hto hothers (.refl client s), h, ← seen_filter hto hothers (.refl client s)]

theorem reads_eq (hk : k ≠ client) (s : Session)
    (h : as.filter (!·.isTo client) = bs.filter (!·.isTo client)) :
    reads k as s = reads k bs s := by
  apply seen_eq _ _ s h
  · intro a s ha
    rw [if_neg]
    cases a with
    | recv j | drain j =>
        obtain rfl : j = client := eq_of_beq ha
        simpa [Step.isReadOf] using hk.symm
    | closeInbox | dropInbox | dropClient | stop => simp [Step.isReadOf]
    | register | broadcast | send | intake | closeIntake | dropIntakeSender | shutDown => cases ha
  · intro a s t _ hagree
    split
    · next hread => rw [hagree.read_eq hk hread]
    · rfl

theorem standings_eq (hk : k ≠ client) (s : Session)
    (h : as.filter (!·.isTo client) = bs.filter (!·.isTo client)) :
    standings client k as s = standings client k bs s := by
  apply seen_eq _ _ s h
  · intro a s ha
    exact if_pos ha
  · intro a s t _ hagree
    rw [(hagree.next a).clients k hk]

theorem orders_eq (s : Session) (h : as.filter (!·.isTo client) = bs.filter (!·.isTo client)) :
    orders client as s = orders client bs s := by
  apply seen_eq _ _ s h
  · intro a s ha
    exact if_pos ha
  · intro a s t _ hagree
    rw [(hagree.next a).liveBut_eq]

theorem run_agreeBut (s : Session) (h : as.filter (!·.isTo client) = bs.filter (!·.isTo client)) :
    AgreeBut client (s.run as) (s.run bs) := by
  have has : AgreeBut client (s.run as) (s.run (as.filter (!·.isTo client))) :=
    run_filter (.refl client s)
  have hbs : AgreeBut client (s.run bs) (s.run (bs.filter (!·.isTo client))) :=
    run_filter (.refl client s)
  rw [h] at has
  exact has.trans hbs.symm

end Session

open Session

/-- Take the steps addressed to one client out of a run, or put others in their place. Every
other client then reads the same from its inbox, is registered and told to stop at the same
steps, and ends with the same queue; and the registered ones stay in the same order. The steps
that may differ do not touch the others at all. -/
theorem clients_undisturbed {client : Nat} {as bs : List Step} (s : Session)
    (h : as.filter (!·.isTo client) = bs.filter (!·.isTo client)) :
    (∀ k, k ≠ client → reads k as s = reads k bs s ∧
      standings client k as s = standings client k bs s ∧
      (s.run as).registry.clients[k]? = (s.run bs).registry.clients[k]?) ∧
    orders client as s = orders client bs s ∧
    ∀ (a : Step) (t : Session), a.isTo client = true →
      (t.next a).liveBut client = t.liveBut client ∧
        ∀ k, k ≠ client → (t.next a).registry.clients[k]? = t.registry.clients[k]? := by
  refine ⟨?_, orders_eq s h, ?_⟩
  · intro k hk
    exact ⟨reads_eq hk s h, standings_eq hk s h, (run_agreeBut s h).clients k hk⟩
  · intro a t ha
    have hagree := AgreeBut.next_of_isTo t ha
    exact ⟨hagree.liveBut_eq, hagree.clients⟩

/-- The first client reads nothing in one run, which costs it its registration, and everything
in the other. -/
theorem clients_undisturbed_by_slow_client :
    let m : Message := ⟨"message", none, 0⟩
    let m' : Message := ⟨"message", none, 1⟩
    let slow := [Step.register, .register, .broadcast m, .recv 1, .broadcast m', .recv 1]
    let quick := [Step.register, .register, .broadcast m, .recv 0, .recv 1, .broadcast m', .drain 0,
      .recv 1]
    let s : Session := { registry := { capacity := 1 }, intake := { capacity := 1 } }
    slow.filter (!·.isTo 0) = quick.filter (!·.isTo 0) ∧
      ((s.run slow).registry.clients[0]?.any fun c => !c.registered) = true ∧
      ((s.run quick).registry.clients[0]?.any fun c => c.registered) = true ∧
      reads 1 slow s = [.read (.item m), .read (.item m')] ∧
      reads 1 slow s = reads 1 quick s ∧ orders 0 slow s = orders 0 quick s := by
  intro m m' slow quick s
  have hsame : slow.filter (!·.isTo 0) = quick.filter (!·.isTo 0) := by decide
  obtain ⟨hothers, horders, -⟩ := clients_undisturbed s hsame
  exact ⟨hsame, by decide, by decide, by decide, (hothers 1 (by decide)).1, horders⟩

end HookRelay.Registry
