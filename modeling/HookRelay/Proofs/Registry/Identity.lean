import HookRelay.Proofs.Registry.Broadcast
import HookRelay.Proofs.Registry.Separation
import Mathlib.Algebra.Group.Nat.Defs

namespace HookRelay.Registry

/-- Whether the step tells the client at position `k` to stop. -/
def Step.stops (k : Nat) (a : Step) (c : Client) : Bool :=
  match a with
  | .stop j => j = k
  | .shutDown => c.registered
  | _ => false

/-- The id that an answer hands out. -/
def Reply.id? : Reply → Option UInt64
  | .registered id => some id
  | _ => Option.none

namespace Step

variable {k : Nat} {a : Step} {c : Client}

theorem id_onClient : (a.onClient k c).id = c.id := by
  cases a with
  | broadcast m => exact (Client.offer_frame m c).1
  | shutDown => cases hreg : c.registered <;> simp [onClient, Client.shutDown, hreg, Client.leave]
  | recv j | drain j | closeInbox j | dropInbox j | dropClient j | stop j =>
      simp only [onClient, Session.recv_snd, Session.drain_snd]
      repeat' split
      all_goals rfl
  | register | send | intake | closeIntake | dropIntakeSender => rfl

theorem stopped_onClient : (a.onClient k c).stopped = (c.stopped || a.stops k c) := by
  cases a with
  | broadcast m =>
      exact (Client.offer_frame m c).2.1.trans (Bool.or_false _).symm
  | shutDown => cases hreg : c.registered <;> simp [onClient, Client.shutDown, hreg, stops]
  | recv j | drain j | closeInbox j | dropInbox j | dropClient j =>
      simp only [onClient, Session.recv_snd, Session.drain_snd, stops, Bool.or_false]
      repeat' split
      all_goals rfl
  | stop j =>
      simp only [onClient, stops]
      split
      · next hj => simp [hj]
      · next hj => simp [hj]
  | register | send | intake | closeIntake | dropIntakeSender => exact (Bool.or_false _).symm

theorem stops_iff :
    a.stops k c = true ↔ a = .stop k ∨ a = .shutDown ∧ c.registered = true := by
  cases a <;> simp [stops]

end Step

namespace Session

variable {k : Nat} {a : Step} {as : List Step} {s start : Session} {c : Client}

/-- The ids of the registered clients, in the registry's order. -/
def ids (s : Session) : List UInt64 := s.registry.live.map (·.id)

/-- The ids that the registrations among some steps hand out, in order. -/
def handedOut : List Step → Session → List UInt64 :=
  seen fun a s => (s.step a).1.id?.toList

/-- Whether one of the steps told the client at position `k` to stop. -/
def ToldToStop (k : Nat) (as : List Step) (s : Session) : Prop :=
  ∃ before a after c, as = before ++ a :: after ∧
    (s.run before).registry.clients[k]? = some c ∧
    (a = .stop k ∨ a = .shutDown ∧ c.registered = true)

theorem nextId_next (s : Session) (a : Step) :
    (s.next a).registry.nextId =
      if a = .register then s.registry.nextId + 1 else s.registry.nextId := by
  split
  · next ha =>
    subst ha
    simp only [next, step, client?, Registry.register]
    cases (Mailbox.create s.registry.capacity : Except CapacityError (Mailbox Message)) with
    | error e => rfl
    | ok inbox => rfl
  · next ha =>
    obtain ⟨clients, hclients⟩ := exists_clients_next s ha
    rw [hclients]

theorem nextId_run (hstart : start.registry.nextId = 0) (as : List Step) :
    (start.run as).registry.nextId = UInt64.ofNat (as.count .register) := by
  induction as using List.reverseRecOn with
  | nil => exact hstart
  | append_singleton as a ih =>
      rw [run_append, run_cons, run_nil, nextId_next, ih, List.count_append]
      by_cases ha : a = .register
      · subst ha
        simp [UInt64.ofNat_add]
      · rw [if_neg ha, List.count_singleton, if_neg (by simpa using ha), Nat.add_zero]

theorem id?_step (ha : a ≠ .register) : (s.step a).1.id? = none := by
  unfold step
  split
  · split
    · rfl
    · cases a with
      | send =>
          simp only [stepClient]
          split <;> rfl
      | _ => rfl
  · cases a with
    | register => exact absurd rfl ha
    | dropIntakeSender =>
        dsimp only
        split <;> rfl
    | _ => rfl

theorem register_cases (s : Session) :
    (s.step .register).1 = .registered s.registry.nextId ∧
        (∃ inbox, (s.next .register).registry.clients =
          s.registry.clients ++ [{ id := s.registry.nextId, inbox }]) ∨
      (∃ e, (s.step .register).1 = .refused e) ∧
        (s.next .register).registry.clients = s.registry.clients := by
  simp only [next, step, client?, Registry.register]
  cases (Mailbox.create s.registry.capacity : Except CapacityError (Mailbox Message)) with
  | error e => exact .inr ⟨⟨e, rfl⟩, rfl⟩
  | ok inbox => exact .inl ⟨rfl, inbox, rfl⟩

theorem map_id_next (s : Session) (a : Step) :
    (s.next a).registry.clients.map (·.id) =
      s.registry.clients.map (·.id) ++ (s.step a).1.id?.toList := by
  by_cases ha : a = .register
  · subst ha
    rcases register_cases s with ⟨hreply, inbox, hclients⟩ | ⟨⟨e, hreply⟩, hclients⟩
    · rw [hreply, hclients, List.map_append]
      rfl
    · rw [hreply, hclients]
      exact (List.append_nil _).symm
  · rw [id?_step ha]
    refine Eq.trans (List.ext_getElem? fun k => ?_) (List.append_nil _).symm
    rw [List.getElem?_map, List.getElem?_map]
    cases hc : s.registry.clients[k]? with
    | some c => rw [clients_next a hc, Option.map_some, Option.map_some, Step.id_onClient]
    | none =>
        have hlength := (length_clients_next s a).resolve_right fun hregister => ha hregister.1
        rw [List.getElem?_eq_none (hlength ▸ List.getElem?_eq_none_iff.mp hc)]

theorem map_id_run (s : Session) (as : List Step) :
    (s.run as).registry.clients.map (·.id) =
      s.registry.clients.map (·.id) ++ handedOut as s := by
  induction as generalizing s with
  | nil => exact (List.append_nil _).symm
  | cons a as ih =>
      rw [run_cons, ih, map_id_next, List.append_assoc]
      rfl

theorem eq_nextId_of_mem {id : UInt64} (h : id ∈ (s.step a).1.id?.toList) :
    a = .register ∧ id = s.registry.nextId := by
  by_cases ha : a = .register
  · subst ha
    rcases register_cases s with ⟨hreply, -⟩ | ⟨⟨e, hreply⟩, -⟩
    · rw [hreply] at h
      exact ⟨rfl, List.mem_singleton.mp h⟩
    · rw [hreply] at h
      cases h
  · rw [id?_step ha] at h
    cases h

/-- As long as the ids last, they are handed out in increasing order. -/
theorem map_id_increasing (hstart : start.registry = { capacity := start.registry.capacity })
    (hcount : as.count .register < 2 ^ 64) :
    ((start.run as).registry.clients.map (·.id)).Pairwise (· < ·) ∧
      ∀ id ∈ (start.run as).registry.clients.map (·.id),
        id < (start.run as).registry.nextId := by
  have hzero : start.registry.nextId = 0 := by rw [hstart]
  induction as using List.reverseRecOn with
  | nil =>
      rw [run_nil, hstart]
      exact ⟨.nil, nofun⟩
  | append_singleton as a ih =>
      rw [List.count_append] at hcount
      obtain ⟨hincreasing, hbelow⟩ := ih (by omega)
      -- Only here the number of registrations counts: one more, and the ids would start anew.
      have hnext : a = .register →
          (start.run as).registry.nextId < ((start.run as).next a).registry.nextId := by
        rintro rfl
        rw [← run_nil (next _ _), ← run_cons, ← run_append, nextId_run hzero,
          nextId_run hzero, List.count_append]
        rw [List.count_singleton_self] at hcount ⊢
        exact (UInt64.ofNat_lt_iff_lt (Nat.lt_of_succ_lt hcount) hcount).mpr (Nat.lt_succ_self _)
      have hkept : (start.run as).registry.nextId ≤ ((start.run as).next a).registry.nextId := by
        by_cases ha : a = .register
        · exact UInt64.le_of_lt (hnext ha)
        · rw [nextId_next, if_neg ha]
          exact UInt64.le_refl _
      rw [run_append, run_cons, run_nil, map_id_next]
      refine ⟨List.pairwise_append.mpr ⟨hincreasing, ?_, ?_⟩, ?_⟩
      · cases (((start.run as).step a).1.id?) with
        | none => exact .nil
        | some id => exact List.pairwise_singleton _ _
      · intro id hid id' hid'
        obtain ⟨-, rfl⟩ := eq_nextId_of_mem hid'
        exact hbelow id hid
      · intro id hid
        rcases List.mem_append.mp hid with hold | hnew
        · exact UInt64.lt_of_lt_of_le (hbelow id hold) hkept
        · obtain ⟨hregister, rfl⟩ := eq_nextId_of_mem hnew
          exact hnext hregister

theorem toldToStop_concat : ToldToStop k (as ++ [a]) s ↔
    ToldToStop k as s ∨
      ∃ c, (s.run as).registry.clients[k]? = some c ∧ a.stops k c = true := by
  constructor
  · rintro ⟨before, b, after, c, has, hc, hb⟩
    rcases Steps.exists_of_concat_eq has with ⟨rfl, rfl⟩ | ⟨after, rfl⟩
    · exact .inr ⟨c, hc, Step.stops_iff.mpr hb⟩
    · exact .inl ⟨before, b, after, c, rfl, hc, hb⟩
  · rintro (⟨before, b, after, c, rfl, hc, hb⟩ | ⟨c, hc, ha⟩)
    · exact ⟨before, b, after ++ [a], c, by simp, hc, hb⟩
    · exact ⟨as, a, [], c, rfl, hc, Step.stops_iff.mp ha⟩

theorem not_toldToStop (hnone : (s.run as).registry.clients[k]? = none) :
    ¬ToldToStop k as s := by
  rintro ⟨before, a, after, c, rfl, hc, -⟩
  rw [run_append, clients_run _ hc] at hnone
  cases hnone

/-- A client's stop signal remembers the steps since the client was registered. -/
theorem stopped_iff (hstart : start.registry.clients = [])
    (hc : (start.run as).registry.clients[k]? = some c) :
    c.stopped = true ↔ ToldToStop k as start := by
  induction as using List.reverseRecOn generalizing c with
  | nil =>
      rw [run_nil, hstart] at hc
      cases hc
  | append_singleton as a ih =>
      rw [run_append] at hc
      rw [toldToStop_concat]
      rcases clients_next_cases hc with ⟨c, hbefore, rfl⟩ | ⟨rfl, hk, rfl⟩
      · rw [Step.stopped_onClient, Bool.or_eq_true, ih hbefore, hbefore]
        simp
      · have hnone : (start.run as).registry.clients[k]? = none :=
          List.getElem?_eq_none_iff.mpr (Nat.le_of_eq hk.symm)
        simp [hnone, not_toldToStop hnone]

theorem id_run (k : Nat) (as : List Step) (c : Client) : (onClient k as c).id = c.id := by
  induction as generalizing c with
  | nil => rfl
  | cons a as ih => exact (ih (a.onClient k c)).trans Step.id_onClient

/-- A client that has left stays away, because its id stays its own. -/
theorem not_mem_ids_of_left {id : UInt64} {more : List Step}
    (hnodup : ((s.run more).registry.clients.map (·.id)).Nodup)
    (hid : id ∈ s.registry.clients.map (·.id)) (hleft : id ∉ ids s) :
    id ∉ ids (s.run more) := by
  obtain ⟨c, hmem, rfl⟩ := List.mem_map.mp hid
  obtain ⟨k, hk⟩ := List.mem_iff_getElem?.mp hmem
  have hreg : c.registered = false := by
    refine Bool.eq_false_iff.mpr fun hreg => hleft ?_
    exact List.mem_map_of_mem (List.mem_filter.mpr ⟨hmem, hreg⟩)
  intro hback
  obtain ⟨c', hlive, hsame⟩ := List.mem_map.mp hback
  obtain ⟨hmem', hreg'⟩ := List.mem_filter.mp hlive
  obtain ⟨k', hk'⟩ := List.mem_iff_getElem?.mp hmem'
  have hlast := clients_run more hk
  -- A registered client with this id would have to be the one that left.
  have hkk' : k = k' := by
    refine (List.getElem?_inj ?_ hnodup).mp ?_
    · rw [List.length_map]
      exact (List.getElem?_eq_some_iff.mp hlast).1
    · rw [List.getElem?_map, List.getElem?_map, hlast, hk', Option.map_some, Option.map_some,
        id_run, hsame]
  subst hkk'
  rw [hlast] at hk'
  cases hk'
  rw [(run_of_left more hk hreg).1] at hreg'
  cases hreg'

end Session

open Session

/-- In any session with fewer registrations than there are ids, the clients in the registry
are in the order of their ids, all below the next one, and no id is handed out twice,
whatever became of the client that had it, and whether or not registrations failed in
between. A failed registration adds nobody, a client that has left does not come back, and
a client has been told to stop if it was addressed by a stop, or registered at a shutdown,
and only then. -/
theorem identities_and_stops {capacity outbox : Nat} {start : Session} {as : List Step}
    (hstart : Session.start capacity outbox = .ok start)
    (hcount : as.count .register < 2 ^ 64) :
    let s := start.run as
    (ids s).Pairwise (· < ·) ∧ (∀ id ∈ ids s, id < s.registry.nextId) ∧
    (handedOut as start).Pairwise (· < ·) ∧
    s.registry.clients.map (·.id) = handedOut as start ∧
    s.registry.nextId = UInt64.ofNat (as.count .register) ∧
    (∀ e, (s.step .register).1 = .refused e →
      (s.next .register).registry.clients = s.registry.clients) ∧
    (∀ more, (as ++ more).count .register < 2 ^ 64 →
      ∀ id ∈ handedOut as start, id ∉ ids s → id ∉ ids (start.run (as ++ more))) ∧
    ∀ (k : Nat) (c : Client), s.registry.clients[k]? = some c →
      (c.stopped = true ↔ ToldToStop k as start) := by
  intro s
  have hregistry : start.registry = { capacity := start.registry.capacity } := by
    rw [start_eq_ok hstart]
  have hclients : start.registry.clients = [] := by rw [hregistry]
  have hhanded : s.registry.clients.map (·.id) = handedOut as start := by
    rw [map_id_run, hclients]
    rfl
  obtain ⟨hincreasing, hbelow⟩ := map_id_increasing hregistry hcount
  have hlive : (ids s).Sublist (s.registry.clients.map (·.id)) := List.filter_sublist.map _
  refine ⟨hincreasing.sublist hlive, fun id hid => hbelow id (hlive.subset hid), ?_, hhanded,
    nextId_run (by rw [hregistry]) as, ?_, ?_, fun k c hc => stopped_iff hclients hc⟩
  · rw [← hhanded]
    exact hincreasing
  · intro e he
    rcases register_cases s with ⟨hreply, -⟩ | ⟨-, hsame⟩
    · rw [hreply] at he
      cases he
    · exact hsame
  · intro more hmore id hid hleft
    rw [run_append]
    refine not_mem_ids_of_left ?_ (hhanded ▸ hid) hleft
    rw [← run_append]
    exact (map_id_increasing hregistry hmore).1.imp UInt64.ne_of_lt

/-- The first client is too slow and leaves untold, the second is told by the shutdown, and
the third by its own stop. -/
theorem identities_and_stops_of_slow_client :
    let m : Message := ⟨"message", none, 0⟩
    let as := [Step.register, .register, .register, .broadcast m, .recv 1, .recv 2, .broadcast m,
      .stop 2, .recv 2, .shutDown, .register]
    let start : Session := { registry := { capacity := 1 }, intake := { capacity := 1 } }
    let s := start.run as
    Session.start 1 1 = .ok start ∧ ids s = [3] ∧ handedOut as start = [0, 1, 2, 3] ∧
      (handedOut as start).Pairwise (· < ·) ∧ s.registry.nextId = 4 ∧
      ¬ToldToStop 0 as start ∧ ToldToStop 1 as start ∧ ToldToStop 2 as start ∧
      0 ∉ ids (start.run (as ++ [.register])) := by
  intro m as start s
  have hstart : Session.start 1 1 = .ok start := rfl
  have hcount : as.count .register < 2 ^ 64 := by decide +kernel
  obtain ⟨-, -, hincreasing, -, -, -, haway, hstopped⟩ := identities_and_stops hstart hcount
  refine ⟨hstart, by decide, by decide, hincreasing, by decide, ?_, ?_, ?_, ?_⟩
  · exact (hstopped 0 _ (List.getElem?_eq_getElem (by decide))).not.mp (by decide)
  · exact (hstopped 1 _ (List.getElem?_eq_getElem (by decide))).mp (by decide)
  · exact (hstopped 2 _ (List.getElem?_eq_getElem (by decide))).mp (by decide)
  · exact haway [.register] (by decide +kernel) 0 (by decide) (by decide)

end HookRelay.Registry
