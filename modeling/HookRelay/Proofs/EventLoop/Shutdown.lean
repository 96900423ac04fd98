import HookRelay.Proofs.EventLoop.Calls
import HookRelay.Proofs.EventLoop.Recipients

namespace HookRelay.EventLoop

variable {l l' : EventLoop} {h : Happening}

/-- The loop ends with all its clients told to stop and forgotten. -/
theorem clients_of_exits (hgoing : l.phase ≠ .exited) (hexits : l'.phase = .exited)
    (hhappen : l.happen h = some l') :
    l'.registry.clients = l.registry.clients.map Client.shutDown := by
  have hcheckOver : ∀ {l : EventLoop}, l.phase ≠ .exited → l.checkOver.phase = .exited →
      l.checkOver.registry.clients = l.registry.clients.map Client.shutDown := by
    intro l hgoing hexits
    unfold checkOver at hexits ⊢
    split
    · next hopen =>
      rw [if_pos hopen] at hexits
      exact absurd hexits hgoing
    · rfl
  cases h with
  | step now a =>
      rcases step_cases hhappen with ⟨o, s, _, rfl, -, -, rfl⟩ | ⟨hready, hturn⟩ | haround
      · cases o <;> cases hexits
      · cases hturn with
        | quits => rfl
        | noEvent | noCommand | noRequest => exact hcheckOver hgoing hexits
        | @request socket requests =>
            have hready' : ({ l with requests }.register socket).phase = .ready :=
              phase_register socket hready
            rw [hready'] at hexits
            cases hexits
        | event | command => exact absurd hexits hgoing
        | message => cases hexits
      · by_cases hserve : a = .serveMessage
        · subst hserve
          cases haround
          exact absurd hexits hgoing
        · rw [(haround.sameChat hserve).phase] at hexits
          exact absurd hexits hgoing
  | takeInbox | dropInbox | stopClient | bring | leave | dropMessageSender | note =>
      cases hhappen
      exact absurd hexits hgoing

/-- A client that is not registered has no sender for its queue, and a loop that has ended has
registered none. -/
structure Closes (l : EventLoop) : Prop where
  left : ∀ (k : Nat) (c : Client), l.registry.clients[k]? = some c → c.registered = false →
    c.inbox.senders = 0
  exited : l.phase = .exited → ∀ (k : Nat) (c : Client), l.registry.clients[k]? = some c →
    c.registered = false

theorem Closes.happen (hl : Closes l) (hhappen : l.happen h = some l') : Closes l' := by
  have htreats := happen_treats hhappen
  constructor
  · intro k c' hc'
    rcases htreats.origin hc' with ⟨c, hc, hmeets⟩ | ⟨-, hregistered, -⟩
    · exact hmeets.senders (hl.left k c hc)
    · rw [hregistered]
      exact nofun
  · intro hexited k c' hc'
    by_cases hphase : l.phase = .exited
    · rcases htreats.origin hc' with ⟨c, hc, hmeets⟩ | ⟨-, -, -, hgoing⟩
      · exact hmeets.registered (hl.exited hphase k c hc)
      · exact absurd hphase hgoing
    · rw [clients_of_exits hphase hexited hhappen, List.getElem?_map] at hc'
      obtain ⟨c, -, rfl⟩ := Option.map_eq_some_iff.mp hc'
      rw [Client.shutDown]
      split
      · rfl
      · next hleft => exact Bool.eq_false_iff.mpr hleft

theorem Closes.run {hs : List Happening} {start : EventLoop} (hstart : Closes start)
    (hrun : start.run hs = some l) : Closes l :=
  Steps.run_induction (P := fun _ l => Closes l) hstart
    (fun _ _ _ _ _ ih hhappen => ih.happen hhappen) hrun

theorem Closes.of_create {settings : Settings} {hs : List Happening} {start : EventLoop}
    (hcreate : create settings = .ok start) (hrun : start.run hs = some l) : Closes l := by
  refine Closes.run ?_ hrun
  rw [eq_of_create hcreate]
  exact ⟨nofun, nofun⟩

theorem stopped_run {hs : List Happening} {k : Nat} {c : Client}
    (hc : l.registry.clients[k]? = some c) (hstopped : c.stopped = true)
    (hrun : l.run hs = some l') :
    ∃ c', l'.registry.clients[k]? = some c' ∧ c'.stopped = true := by
  refine Steps.run_induction (P := fun _ l' =>
    ∃ c', l'.registry.clients[k]? = some c' ∧ c'.stopped = true) ⟨c, hc, hstopped⟩ ?_ hrun
  rintro hs h l₁ l₂ - ⟨c₁, hc₁, hstopped₁⟩ hhappen
  obtain ⟨c₂, hc₂, hmeets⟩ := (happen_treats hhappen).old k c₁ hc₁
  exact ⟨c₂, hc₂, hmeets.stopped hstopped₁⟩

/-- A loop that has ended handles nothing more and offers nothing more to its clients. -/
theorem exited_run {hs : List Happening} (hphase : l.phase = .exited) (hrun : l.run hs = some l') :
    l'.phase = .exited ∧ (∀ s, handled s hs l = []) ∧ ∀ k, delivered k hs l = [] := by
  refine ⟨?_, ?_, ?_⟩
  · exact Steps.run_induction (P := fun _ l' => l'.phase = .exited) hphase
      (fun _ _ _ _ _ ih hhappen => exited_happen ih hhappen) hrun
  · intro s
    refine Steps.seen_eq_nil (P := fun l => l.phase = .exited) hphase ?_
    intro h _ l l' hphase hhappen
    have hphase' := exited_happen hphase hhappen
    exact ⟨handling_of_exited hphase' hhappen, hphase'⟩
  · intro k
    refine Steps.seen_eq_nil (P := fun l => l.phase = .exited) hphase ?_
    intro h _ l l' hphase hhappen
    have hphase' := exited_happen hphase hhappen
    have hgaining := gaining_sublist hhappen k
    rw [dispatching, handling_of_exited hphase' hhappen, List.map_nil] at hgaining
    exact ⟨List.sublist_nil.mp hgaining, hphase'⟩

/-- Once the loop has been told to stop, every call that begins is turned down. The events that
it has numbered are the first ones that its intake has accepted; what has come to a client is
among them, in their order; and no call that was turned down has an event among them. Whatever
ends the loop, all that are registered at that moment are told to stop, no client is registered
any more, all queues are closed, and the loop handles nothing and offers nothing from then on. -/
theorem stop_is_final {settings : Settings} {start : EventLoop} {hs : List Happening}
    (hcreate : create settings = .ok start) (hrun : start.run hs = some l) :
    ((∃ now, .step now .stop ∈ hs) → ∀ now ticket ask, l.hasSender ask = true →
        l.step now (.call ticket ask) = some (l.answer ticket (some .stopped))) ∧
      (∃ sent, sent <+: arrivals .events hs start ∧
        handled .events hs start = sent.map (·.2) ∧
        l.counter = Int64.ofNat sent.length ∧
        ∀ k, (delivered k hs start).Sublist (numbered (sent.map (·.2)))) ∧
      (∀ ticket, (called hs).count ticket ≤ 1 → (ticket, some .stopped) ∈ l.answers →
        ∀ e, (ticket, e) ∉ arrivals .events hs start) ∧
      (∀ h l', l.happen h = some l' → l'.phase = .exited → ∀ (k : Nat) (c : Client),
        l.registry.clients[k]? = some c → c.registered = true →
        ∀ more l'', l'.run more = some l'' →
        ∃ c' : Client, l''.registry.clients[k]? = some c' ∧ c'.stopped = true) ∧
      (l.phase = .exited → l.registry.live = [] ∧
        (∀ c ∈ l.registry.clients, c.inbox.isOver = true) ∧
        ∀ more l', l.run more = some l' → l'.phase = .exited ∧ handled .events more l = [] ∧
          ∀ k, delivered k more l = []) := by
  have hstart := eq_of_create hcreate
  have hcloses : Closes l := by
    refine Closes.run ⟨?_, ?_⟩ hrun
    · rw [hstart]
      exact nofun
    · rw [hstart]
      exact nofun
  refine ⟨?_, ?_, ?_, ?_, ?_⟩
  · intro hstop now ticket ask hsender
    exact (Around.callRefused hsender (stopping_of_mem hrun hstop)).step
  · obtain ⟨rest, hconserves, -⟩ := run_conserves (s := .events) hrun
    rw [queued_of_create hcreate, List.nil_append] at hconserves
    have hdelivered := fun k => run_delivered (by rw [hstart]) hrun k
    have hhandled : handled .events hs start =
        ((arrivals .events hs start).take (handled .events hs start).length).map (·.2) := by
      rw [List.map_take, hconserves, List.take_left]
    have hlength : ((arrivals .events hs start).take (handled .events hs start).length).length =
        (handled .events hs start).length := by
      rw [← List.length_map (·.2), ← hhandled]
    refine ⟨_, List.take_prefix (handled .events hs start).length _, hhandled, ?_, ?_⟩
    · rw [hlength]
      exact (hdelivered 0).1
    · intro k
      rw [← hhandled]
      exact (hdelivered k).2
  · intro ticket honce hrefused
    exact not_mem_arrivals (by rw [hstart]; rfl) hrun honce hrefused
  · intro h l' hhappen hexits k c hc hregistered more l'' hmore
    have hgoing : l.phase ≠ .exited := by
      intro hexited
      rw [hcloses.exited hexited k c hc] at hregistered
      cases hregistered
    have hc' : l'.registry.clients[k]? = some { c.leave with stopped := true } := by
      rw [clients_of_exits hgoing hexits hhappen, List.getElem?_map, hc, Option.map_some,
        Client.shutDown, if_pos hregistered]
    exact stopped_run hc' rfl hmore
  · intro hexited
    refine ⟨?_, ?_, ?_⟩
    · rw [Registry.live, List.filter_eq_nil_iff]
      intro c hc
      obtain ⟨k, hk⟩ := List.getElem?_of_mem hc
      simp [hcloses.exited hexited k c hk]
    · intro c hc
      obtain ⟨k, hk⟩ := List.getElem?_of_mem hc
      simp [Mailbox.isOver, hcloses.left k c hk (hcloses.exited hexited k c hk)]
    · intro more l' hmore
      obtain ⟨hexited', hhandled, hdelivered⟩ := exited_run hexited hmore
      exact ⟨hexited', hhandled .events, hdelivered⟩

/-- The loop is told to stop while one event is in its intake, a second one waits in line and
a third one has not come to the intake. -/
theorem stop_is_final_over_blocked_sender :
    let e : Event := ⟨"message", none⟩
    let settings := { Settings.default with inboxQueue := 1 }
    let before : List Happening := [.step 0 (.request 0), .step 0 .takeRequest,
      .step 0 (.call 0 (.event e)), .step 0 (.bring 0), .step 0 .takeEvent,
      .step 0 (.call 1 (.event e)), .step 0 (.bring 1), .step 0 (.call 2 (.event e)),
      .step 0 (.bring 2), .step 0 (.call 3 (.event e)), .step 0 .stop]
    let after : List Happening := [.step 0 .quit, .step 0 .serveEvent, .step 0 (.bring 3)]
    ∃ start l l', create settings = .ok start ∧ start.run before = some l ∧
      start.run (before ++ after) = some l' ∧
      l.step 0 (.call 4 (.event e)) = some (l.answer 4 (some .stopped)) ∧
      l'.answers = [(0, none), (1, none), (2, some .stopped), (3, some .stopped)] ∧
      (∀ e, (2, e) ∉ arrivals .events (before ++ after) start) ∧
      (∀ e, (3, e) ∉ arrivals .events (before ++ after) start) ∧
      (delivered 0 (before ++ after) start).Sublist [.ofEvent e 0] ∧
      (∃ c' : Client, l'.registry.clients[0]? = some c' ∧ c'.stopped = true) ∧
      l'.registry.live = [] ∧
      ∀ more l'', l'.run more = some l'' → delivered 0 more l' = [] := by
  intro e settings before after
  obtain ⟨start, hcreate, hreached, hended, hexits, hcalled, hhandled⟩ :
      ∃ start, create settings = .ok start ∧
        ((start.run before).any fun l => l.hasSender (.event e) ∧
          (l.registry.clients[0]?.any fun c => c.registered)) = true ∧
        ((start.run (before ++ after)).any fun l => l.phase = .exited ∧
          l.answers = [(0, none), (1, none), (2, some .stopped), (3, some .stopped)]) = true ∧
        ((start.run (before ++ [.step 0 .quit])).any fun l => l.phase = .exited) = true ∧
        called (before ++ after) = [0, 1, 2, 3] ∧
        numbered (handled .events (before ++ after) start) = [.ofEvent e 0] :=
    ⟨_, rfl, by decide +kernel, by decide +kernel, by decide +kernel, by decide +kernel,
      by decide +kernel⟩
  obtain ⟨l, hrun, hreached⟩ := (Option.any_eq_true _ _).mp hreached
  obtain ⟨hsender, hregistered⟩ := of_decide_eq_true hreached
  obtain ⟨l', hrun', hended⟩ := (Option.any_eq_true _ _).mp hended
  obtain ⟨hphase, hanswers⟩ := of_decide_eq_true hended
  obtain ⟨l₁, hrun₁, hphase₁⟩ := (Option.any_eq_true _ _).mp hexits
  obtain ⟨c, hc, hregistered⟩ := (Option.any_eq_true _ _).mp hregistered
  obtain ⟨hrefuses, -, -, hstops, -⟩ := stop_is_final hcreate hrun
  obtain ⟨-, ⟨sent, -, hsent, -, hdelivered⟩, hturnedDown, -, hover⟩ :=
    stop_is_final hcreate hrun'
  obtain ⟨hlive, -, hsilent⟩ := hover hphase
  rw [run, Steps.run_append hrun] at hrun₁ hrun'
  have hquit : l.happen (.step 0 .quit) = some l₁ := by
    obtain ⟨l₂, hquit, hl₂⟩ := Option.bind_eq_some_iff.mp hrun₁
    cases hl₂
    exact hquit
  have hrest : l₁.run [.step 0 .serveEvent, .step 0 (.bring 3)] = some l' := by
    obtain ⟨l₂, hquit', hrest⟩ := Option.bind_eq_some_iff.mp hrun'
    rw [hquit] at hquit'
    cases hquit'
    exact hrest
  refine ⟨start, l, l', hcreate, hrun, (Steps.run_append hrun).trans hrun', ?_, hanswers, ?_, ?_,
    ?_, hstops _ l₁ hquit (of_decide_eq_true hphase₁) 0 c hc hregistered _ l' hrest, hlive,
    ?_⟩
  · exact hrefuses ⟨0, by decide⟩ 0 4 (.event e) hsender
  · exact hturnedDown 2 (by rw [hcalled]; decide) (by rw [hanswers]; decide)
  · exact hturnedDown 3 (by rw [hcalled]; decide) (by rw [hanswers]; decide)
  · have hdelivered₀ := hdelivered 0
    rw [← hsent, hhandled] at hdelivered₀
    exact hdelivered₀
  · intro more l'' hmore
    exact (hsilent more l'' hmore).2.2 0

end HookRelay.EventLoop
