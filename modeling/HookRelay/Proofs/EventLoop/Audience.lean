import HookRelay.Proofs.EventLoop.Shutdown

namespace HookRelay.EventLoop

/-- At some moment of a run the loop gives an event the number `n`, and the queue of the client at
position `k` is closed or full. -/
def Misses (k n : Nat) (hs : List Happening) (start : EventLoop) : Prop :=
  ∃ before h after l l' c, hs = before ++ h :: after ∧ start.run before = some l ∧
    l.happen h = some l' ∧ l.counter = Int64.ofNat n ∧ l'.counter = Int64.ofNat (n + 1) ∧
    l.registry.clients[k]? = some c ∧ c.refuses = true

/-- From every moment of a run on, what comes into the queue of a client that is registered then
is the rest of a log, up to the first message that the client misses. The log has gone as far at
that moment as the events have been accepted that do not wait any more. -/
def Broadcasts (log : List Message) (hs : List Happening) (start : EventLoop) : Prop :=
  ∀ before after l, hs = before ++ after → start.run before = some l →
    ∀ (k : Nat) (c : Client), l.registry.clients[k]? = some c → c.registered = true →
      ∃ a b, (arrivals .events before start).length = a + (l.queued .events).length ∧
        a ≤ b ∧ b ≤ log.length ∧ delivered k after l = (log.take b).drop a ∧
        (b = log.length ∨ Misses k b after l)

variable {l l' m : EventLoop} {a : Action} {h : Happening} {now k n : Nat} {c c' : Client}
  {es : List Event}

section Leaving

theorem Turn.registered (hturn : Turn now l a l') (hnone : l.dispatching (.step now a) = [])
    (hgoing : l'.phase ≠ .exited) (hc : l.registry.clients[k]? = some c)
    (hc' : l'.registry.clients[k]? = some c') : c'.registered = c.registered := by
  have hsame : l'.registry.clients[k]? = l.registry.clients[k]? →
      c'.registered = c.registered := by
    intro heq
    rw [heq, hc] at hc'
    rw [Option.some.inj hc']
  cases hturn with
  | quits => exact absurd rfl hgoing
  | event _ htake =>
      change (l.events.queue.items.take 1).map _ = [] at hnone
      rw [Intake.items_of_take htake] at hnone
      cases hnone
  | noEvent | noCommand | noRequest =>
      rw [intake_checkOver hgoing] at hsame
      exact hsame rfl
  | command | message => exact hsame rfl
  | @request socket requests =>
      refine hsame ?_
      unfold register Registry.register
      cases (Mailbox.create l.registry.capacity : Except CapacityError (Mailbox Message)) with
      | error e => rfl
      | ok inbox => exact List.getElem?_append_left (List.getElem?_eq_some_iff.mp hc).1

theorem registered_happen (hhappen : l.happen h = some l') (hnone : l.dispatching h = [])
    (hgoing : l'.phase ≠ .exited) (hc : l.registry.clients[k]? = some c)
    (hc' : l'.registry.clients[k]? = some c') : c'.registered = c.registered := by
  have hsame : l'.registry.clients = l.registry.clients → c'.registered = c.registered := by
    intro heq
    rw [heq, hc] at hc'
    rw [Option.some.inj hc']
  have hmodify : ∀ {j : Nat} {f : Client → Client},
      (l.modifyClient j f).registry.clients[k]? = some c' →
      (∀ c, (f c).registered = c.registered) → c'.registered = c.registered := by
    intro j f hc' hf
    change (l.registry.clients.modify j f)[k]? = some c' at hc'
    rw [List.getElem?_modify, hc] at hc'
    obtain rfl := Option.some.inj hc'
    split
    · exact hf c
    · rfl
  cases h with
  | step now a =>
      rcases step_cases hhappen with ⟨o, s, _, rfl, -, -, rfl⟩ | ⟨-, hturn⟩ | haround
      · cases o <;> exact hsame rfl
      · exact hturn.registered hnone hgoing hc hc'
      · exact hsame haround.keeps.clients
  | takeInbox | dropInbox | stopClient =>
      cases hhappen
      exact hmodify hc' fun _ => rfl
  | bring | leave | dropMessageSender | note =>
      cases hhappen
      exact hsame rfl

end Leaving

section Hearing

theorem gaining_of_happen (hhappen : l.happen h = some l') (hc : l.registry.clients[k]? = some c)
    (hc' : l'.registry.clients[k]? = some c') :
    l.gaining k h = c'.inbox.items.drop c.inbox.items.length := by
  rw [gaining, hhappen, Option.elim_some, inboxOf, inboxOf, hc, hc']
  rfl

/-- A client that is registered hears what is offered, or misses it and leaves. -/
theorem hears_happen (hhappen : l.happen h = some l') (hc : l.registry.clients[k]? = some c)
    (hregistered : c.registered = true) :
    ∃ c', l'.registry.clients[k]? = some c' ∧
      ((c'.registered = true ∨ l'.phase = .exited) ∧ l.gaining k h = l.dispatching h ∨
        c'.registered = false ∧ l.gaining k h = [] ∧ l.dispatching h ≠ [] ∧
          c.refuses = true) := by
  obtain ⟨c', hc', hmeets⟩ := (happen_treats hhappen).old k c hc
  refine ⟨c', hc', ?_⟩
  have hquiet : l.dispatching h = [] →
      (c'.registered = true ∨ l'.phase = .exited) ∧ l.gaining k h = l.dispatching h := by
    intro hnone
    refine ⟨?_, ?_⟩
    · by_cases hexited : l'.phase = .exited
      · exact .inr hexited
      · rw [registered_happen hhappen hnone hexited hc hc']
        exact .inl hregistered
    · have hgaining := gaining_sublist hhappen k
      rw [hnone] at hgaining ⊢
      exact List.sublist_nil.mp hgaining
  have hgaining := gaining_of_happen hhappen hc hc'
  generalize l.dispatching h = ms at hmeets hquiet ⊢
  cases hmeets with
  | offer m =>
      rw [Client.offer_fst, if_pos hregistered] at hgaining ⊢
      cases hrefuses : c.refuses with
      | true =>
          rw [hgaining, hrefuses, if_pos rfl]
          exact .inr ⟨rfl, List.drop_length, nofun, rfl⟩
      | false =>
          rw [hgaining, hrefuses, if_neg Bool.false_ne_true]
          exact .inl ⟨.inl hregistered, List.drop_left⟩
  | nothing | shutDown | takeInbox | dropInbox | stop => exact .inl (hquiet rfl)

theorem gaining_of_left (hhappen : l.happen h = some l') (hc : l.registry.clients[k]? = some c)
    (hleft : c.registered = false) :
    ∃ c', l'.registry.clients[k]? = some c' ∧ c'.registered = false ∧ l.gaining k h = [] := by
  obtain ⟨c', hc', hmeets⟩ := (happen_treats hhappen).old k c hc
  refine ⟨c', hc', hmeets.registered hleft, ?_⟩
  have hgaining := gaining_sublist hhappen k
  have hgains := gaining_of_happen hhappen hc hc'
  generalize l.dispatching h = ms at hmeets hgaining
  cases hmeets with
  | offer m =>
      rw [hgains, Client.offer_fst, hleft, if_neg Bool.false_ne_true]
      exact List.drop_length
  | nothing | shutDown | takeInbox | dropInbox | stop => exact List.sublist_nil.mp hgaining

theorem Misses.concat {hs : List Happening} (hmisses : Misses k n hs m) (h : Happening) :
    Misses k n (hs ++ [h]) m := by
  obtain ⟨before, h', after, l, l', c, rfl, hrest⟩ := hmisses
  exact ⟨before, h', after ++ [h], l, l', c, by simp, hrest⟩

/-- Since a moment at which a log had gone as far as `a`, a client has heard all of it, or all up
to what it missed. -/
def Hears (log : List Message) (a k : Nat) (hs : List Happening) (start l : EventLoop) : Prop :=
  ∃ c, l.registry.clients[k]? = some c ∧
    ((c.registered = true ∨ l.phase = .exited) ∧ delivered k hs start = log.drop a ∨
      c.registered = false ∧ ∃ b, a ≤ b ∧ b < log.length ∧
        delivered k hs start = (log.take b).drop a ∧ Misses k b hs start)

theorem Hears.concat {hs : List Happening} {start : EventLoop} {a : Nat}
    (hcounter : l.counter = Int64.ofNat es.length) (ha : a ≤ es.length)
    (hl : Hears (numbered es) a k hs start l) (hrun : start.run hs = some l)
    (hhappen : l.happen h = some l') :
    Hears (numbered (es ++ l.handling .events h)) a k (hs ++ [h]) start l' := by
  have hmore : delivered k (hs ++ [h]) start = delivered k hs start ++ l.gaining k h :=
    Steps.seen_concat hrun hhappen
  have hlength : a ≤ (numbered es).length := by rwa [length_numbered]
  rw [Hears, hmore, numbered_append_handling hcounter]
  obtain ⟨c, hc, ⟨hgoing, hheard⟩ | ⟨hleft, b, hab, hb, hheard, hmisses⟩⟩ := hl
  · by_cases hregistered : c.registered = true
    · obtain ⟨c', hc', ⟨hgoing', hgaining⟩ | ⟨hleft, hgaining, hoffered, hrefuses⟩⟩ :=
        hears_happen hhappen hc hregistered
      · refine ⟨c', hc', .inl ⟨hgoing', ?_⟩⟩
        rw [hheard, hgaining, List.drop_append_of_le_length hlength]
      · refine ⟨c', hc', .inr ⟨hleft, (numbered es).length, hlength, ?_, ?_, ?_⟩⟩
        · rw [List.length_append]
          exact Nat.lt_add_of_pos_right (List.length_pos_iff.mpr hoffered)
        · rw [hheard, hgaining, List.append_nil, List.take_left]
        · have hone : (l.dispatching h).length = 1 := by
            have hle := length_handling_le (s := .events) (l := l) (h := h)
            have hpos := List.length_pos_iff.mpr hoffered
            rw [dispatching, List.length_map] at hpos ⊢
            omega
          refine ⟨hs, h, [], l, l', c, rfl, hrun, hhappen, ?_, ?_, hc, hrefuses⟩
          · rw [length_numbered, hcounter]
          · rw [(happen_treats hhappen).counter, hone, hcounter, length_numbered, Int64.ofNat_add]
    · have hleft := Bool.eq_false_iff.mpr hregistered
      have hexited := hgoing.resolve_left hregistered
      obtain ⟨c', hc', -, hgaining⟩ := gaining_of_left hhappen hc hleft
      have hexited' := exited_happen hexited hhappen
      refine ⟨c', hc', .inl ⟨.inr hexited', ?_⟩⟩
      rw [hheard, hgaining, dispatching, handling_of_exited hexited' hhappen, List.map_nil,
        List.append_nil, List.append_nil]
  · obtain ⟨c', hc', hleft', hgaining⟩ := gaining_of_left hhappen hc hleft
    refine ⟨c', hc', .inr ⟨hleft', b, hab, ?_, ?_, hmisses.concat h⟩⟩
    · rw [List.length_append]
      exact Nat.lt_add_right _ hb
    · rw [hheard, hgaining, List.append_nil, List.take_append_of_le_length (Nat.le_of_lt hb)]

theorem hears_run {hs : List Happening} (hcounter : m.counter = Int64.ofNat es.length)
    (hc : m.registry.clients[k]? = some c) (hregistered : c.registered = true)
    (hrun : m.run hs = some l) :
    Hears (numbered (es ++ handled .events hs m)) es.length k hs m l := by
  refine Steps.run_induction (P := fun hs l =>
    l.counter = Int64.ofNat (es ++ handled .events hs m).length ∧
      Hears (numbered (es ++ handled .events hs m)) es.length k hs m l) ?_ ?_ hrun |>.2
  · have hnone : es ++ handled .events [] m = es := List.append_nil _
    rw [hnone]
    refine ⟨hcounter, c, hc, .inl ⟨.inl hregistered, ?_⟩⟩
    rw [List.drop_eq_nil_of_le (Nat.le_of_eq (length_numbered es))]
    rfl
  · rintro hs h l l' hrun ⟨hcounter, hl⟩ hhappen
    have hhandled : es ++ handled .events (hs ++ [h]) m =
        es ++ handled .events hs m ++ l.handling .events h := by
      rw [List.append_assoc]
      exact congrArg _ (Steps.seen_concat hrun hhappen)
    rw [hhandled]
    have hlength : (es ++ handled .events hs m ++ l.handling .events h).length =
        (es ++ handled .events hs m).length + (l.dispatching h).length := by
      rw [List.length_append, dispatching, List.length_map]
    refine ⟨?_, hl.concat hcounter ?_ hrun hhappen⟩
    · rw [(happen_treats hhappen).counter, hcounter, hlength, Int64.ofNat_add]
    · rw [List.length_append]
      exact Nat.le_add_right _ _

end Hearing

/-- The events that the loop takes from its intake are those that its clients hear. -/
theorem run_broadcasts {settings : Settings} {start : EventLoop} {hs : List Happening}
    (hcreate : create settings = .ok start) (hrun : start.run hs = some l) :
    Broadcasts (numbered (handled .events hs start)) hs start := by
  rintro before after m rfl hbefore k c hc hregistered
  have hstart := eq_of_create hcreate
  have hcounter := (run_delivered (by rw [hstart]) hbefore k).1
  have hafter : m.run after = some l := (Steps.run_append hbefore).symm.trans hrun
  have hhandled : handled .events (before ++ after) start =
      handled .events before start ++ handled .events after m := Steps.seen_append hbefore
  have hgoing : m.phase ≠ .exited := by
    intro hexited
    rw [(Closes.of_create hcreate hbefore).exited hexited k c hc] at hregistered
    cases hregistered
  have harrivals : (arrivals .events before start).length =
      (handled .events before start).length + (m.queued .events).length := by
    obtain ⟨rest, hconserves, hrest⟩ := run_conserves (s := .events) hbefore
    rw [queued_of_create hcreate, List.nil_append, hrest hgoing] at hconserves
    rw [← List.length_map (·.2), hconserves, List.length_append]
  obtain ⟨c', -, ⟨-, hheard⟩ | ⟨-, b, hab, hb, hheard, hmisses⟩⟩ :=
    hears_run hcounter hc hregistered hafter
  · rw [← hhandled] at hheard
    refine ⟨_, _, harrivals, ?_, Nat.le_refl _, ?_, .inl rfl⟩
    · rw [length_numbered, hhandled, List.length_append]
      exact Nat.le_add_right _ _
    · rw [hheard, List.take_length]
  · rw [← hhandled] at hheard hb
    exact ⟨_, b, harrivals, hab, Nat.le_of_lt hb, hheard, .inr hmisses⟩

end HookRelay.EventLoop
