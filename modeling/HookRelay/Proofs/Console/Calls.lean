import HookRelay.Console.Run
import HookRelay.Proofs.Console.Lines
import HookRelay.Proofs.EventLoop.Dispatching
import HookRelay.Proofs.Relay.Settling

namespace HookRelay.Console

open EventLoop (AwaitsCall Issues)

variable {n : Network} {settings : Settings} {r r' : Relay} {asks : List Ask}

theorem perform_issues (hawaits : AwaitsCall r.loop) (ticket : Nat) (ask : Ask)
    (hperform : perform [.loop (.call ticket ask), .loop (.bring ticket)] r = r') :
    Issues [ask] r.loop r'.loop ∧ AwaitsCall r'.loop := by
  obtain ⟨l₁, l₂, hcall, hbring, hissues, hawaits₂⟩ := hawaits.issues r.now ticket ask
  have hcall' : r.step (.loop (.call ticket ask)) = some { r with loop := l₁ } := by
    simp [Relay.step, Relay.isAcceptors, hcall]
  have hbring' :
      { r with loop := l₁ }.step (.loop (.bring ticket)) = some { r with loop := l₂ } := by
    simp [Relay.step, Relay.isAcceptors, hbring]
  have hsettle : settle { r with loop := l₂ } = r' := by
    rw [← hperform, perform, List.foldl_cons, hcall', Option.getD_some, List.foldl_cons, hbring',
      Option.getD_some, List.foldl_nil]
  have hreaches := Relay.loop_reaches_of_reaches (Relay.settle_reaches chat { r with loop := l₂ })
  rw [← settle, hsettle] at hreaches
  exact ⟨hissues.trans (.of_reaches hreaches), hawaits₂.of_reaches hreaches⟩

/-- The calls that a console's input asks for are made, each once and one after another. -/
theorem feed_issues (hawaits : AwaitsCall r.loop) (asks : List Ask) :
    Issues asks r.loop (feed asks r).loop ∧ AwaitsCall (feed asks r).loop := by
  unfold feed
  generalize 0 = first
  induction asks generalizing r first with
  | nil => exact ⟨.refl, hawaits⟩
  | cons ask asks ih =>
      rw [List.zipIdx_cons, List.foldl_cons]
      obtain ⟨hissues, hawaits'⟩ := perform_issues hawaits first ask rfl
      obtain ⟨hrest, hawaits''⟩ := ih hawaits' (first + 1)
      exact ⟨hissues.trans hrest, hawaits''⟩

theorem issues_of_start (hstart : start n settings = .ok r)
    (hothers : Steps.Reaches Relay.step Relay.Action.IsOthers r r') :
    ∃ first, EventLoop.create settings = .ok first ∧ Issues [] first r'.loop ∧
      AwaitsCall r'.loop := by
  unfold start Relay.create at hstart
  cases hcreate : EventLoop.create settings with
  | error e =>
      rw [hcreate] at hstart
      cases hstart
  | ok first =>
      rw [hcreate] at hstart
      cases hstart
      have hreaches := Relay.loop_reaches_of_reaches ((Relay.settle_reaches chat _).trans hothers)
      exact ⟨first, rfl, .of_reaches hreaches,
        (EventLoop.awaitsCall_of_create hcreate).of_reaches hreaches⟩

/-- The messages that lines of chat become, each under the number of such lines before it. -/
def chatMessages (bodies : List String) : List Message :=
  bodies.mapIdx fun k body =>
    { kind := "message"
      data := some ⟨[("body", body)], List.pairwise_singleton _ _⟩
      id := Int64.ofNat k }

theorem numbered_chat (bodies : List String) :
    numbered (bodies.map Event.chat) = chatMessages bodies := by
  rw [numbered, chatMessages, List.mapIdx_eq_zipIdx_map, List.mapIdx_eq_zipIdx_map, List.zipIdx_map,
    List.map_map]
  rfl

theorem chat_injective : Function.Injective Event.chat := fun _ _ h =>
  Option.some.inj (congrArg (fun e : Event => e.data.bind (·.get? "body")) h)

theorem exists_bodies
    (hasks : ∀ e, .event e ∈ asks → ∃ body, e = .chat body ∧ IsBody body) :
    ∃ bodies : List String, asks.filterMap Ask.event? = bodies.map Event.chat ∧
      ∀ body ∈ bodies, IsBody body := by
  induction asks with
  | nil => exact ⟨[], rfl, nofun⟩
  | cons ask asks ih =>
      obtain ⟨bodies, hbodies, hall⟩ := ih fun e he => hasks e (List.mem_cons_of_mem _ he)
      cases ask with
      | command c => exact ⟨bodies, hbodies, hall⟩
      | event e =>
          obtain ⟨body, rfl, hbody⟩ := hasks e List.mem_cons_self
          refine ⟨body :: bodies, ?_, List.forall_mem_cons.mpr ⟨hbody, hall⟩⟩
          rw [List.map_cons, ← hbodies]
          rfl

section Broadcasting

variable {first : EventLoop} {hs : List EventLoop.Happening} {l : EventLoop}
  {bodies : List String}

/-- What the clients of a loop hear to which these calls are made one after another. -/
theorem broadcasts_chat (hbodies : asks.filterMap Ask.event? = bodies.map Event.chat)
    (hcreate : EventLoop.create settings = .ok first) (hrun : first.run hs = some l)
    (hserial : EventLoop.Serial hs first) (hmade : EventLoop.made hs <+: asks) :
    ∃ k, k ≤ bodies.length ∧ l.counter = Int64.ofNat k ∧
      EventLoop.Broadcasts ((chatMessages bodies).take k) hs first := by
  obtain ⟨rest, hrest⟩ := (hserial.handled_in_order hcreate hrun).trans
    (hmade.filterMap Ask.event?)
  rw [hbodies] at hrest
  have hlength : (EventLoop.handled .events hs first).length ≤ bodies.length := by
    rw [← List.length_map Event.chat, ← hrest, List.length_append]
    exact Nat.le_add_right _ _
  refine ⟨_, hlength, ?_, ?_⟩
  · exact (EventLoop.run_delivered (by rw [EventLoop.eq_of_create hcreate]) hrun 0).1
  · rw [← numbered_chat, ← hrest, take_numbered_append _ _ (Nat.le_refl _),
      List.take_of_length_le (Nat.le_of_eq (length_numbered _))]
    exact EventLoop.run_broadcasts hcreate hrun

end Broadcasting

/-- The calls of a console come to a relay that has been started in a run of its loop in which
they are made one after another, and none of them is turned down. All their events can then be
handled, and nobody has to call for that. -/
theorem exists_run_of_feed (hstart : start n settings = .ok r)
    (hothers : Steps.Reaches Relay.step Relay.Action.IsOthers r r') (asks : List Ask) :
    ∃ first hs, EventLoop.create settings = .ok first ∧
      first.run hs = some (feed asks r').loop ∧ EventLoop.made hs = asks ∧
      EventLoop.Serial hs first ∧ (feed asks r').loop.turnedDown = [] ∧
      ∃ more l, (∀ h ∈ more, h.IsOthers) ∧ (feed asks r').loop.run more = some l ∧
        EventLoop.handled .events (hs ++ more) first = asks.filterMap Ask.event? := by
  obtain ⟨first, hcreate, hissues, hawaits⟩ := issues_of_start hstart hothers
  obtain ⟨hfed, hawaits'⟩ := feed_issues hawaits asks
  obtain ⟨hs, hrun, hmade, hserial, hgoing⟩ := hissues.trans hfed
  refine ⟨first, hs, hcreate, hrun, hmade, hserial,
    (EventLoop.Orderly.run hcreate hrun hgoing).1.served, ?_⟩
  have hdispatched := EventLoop.exists_dispatched hcreate hrun hserial hgoing hawaits'
  rwa [hmade] at hdispatched

/-- Up to the first line that is no text, each line of a console's input that is not blank asks
for one call: a command if it begins with a slash, and else an event. These calls are made, in
this order and one after another, and none of them is turned down. As long as nobody else calls,
what the clients hear are the lines of chat, each under the number of such lines before it in the
input, whatever else stands there or happens meanwhile, and all of them can be heard. What two
texts with a line feed between them ask for is what the one asks for and then what the other
does. -/
theorem lines_become_calls :
    (∀ bs : List UInt8,
      ∃ (texts : List String) (rest : List (List UInt8)) (calls : List (List Ask))
        (bodies : List String),
        SplitsInto bs (texts.map Text.bytes ++ rest) ∧
        (∀ l ∈ rest.head?, Text.ofBytes? l = none) ∧ List.Forall₂ AsksFor texts calls ∧
        (Input.ofBytes bs).asks = calls.flatten ∧
        ((Input.ofBytes bs).isText = true ↔ rest = []) ∧
        calls.flatten.filterMap Ask.event? = bodies.map Event.chat ∧
        (∀ body ∈ bodies, IsBody body) ∧
        (∀ n settings r r', start n settings = .ok r →
          Steps.Reaches Relay.step Relay.Action.IsOthers r r' →
          ∃ first hs, EventLoop.create settings = .ok first ∧
            first.run hs = some (feed (Input.ofBytes bs).asks r').loop ∧
            EventLoop.made hs = (Input.ofBytes bs).asks ∧ EventLoop.Serial hs first ∧
            (feed (Input.ofBytes bs).asks r').loop.turnedDown = [] ∧
            ∃ more l, (∀ h ∈ more, h.IsOthers) ∧
              (feed (Input.ofBytes bs).asks r').loop.run more = some l ∧
              l.counter = Int64.ofNat bodies.length ∧
              EventLoop.Broadcasts (chatMessages bodies) (hs ++ more) first) ∧
        ∀ settings first hs l, EventLoop.create settings = .ok first → first.run hs = some l →
          EventLoop.Serial hs first → EventLoop.made hs <+: (Input.ofBytes bs).asks →
          ∃ k, k ≤ bodies.length ∧ l.counter = Int64.ofNat k ∧
            EventLoop.Broadcasts ((chatMessages bodies).take k) hs first) ∧
    ∀ a b : String, Input.ofBytes (Text.bytes (a ++ "\n" ++ b)) =
      ⟨(Input.ofBytes (Text.bytes a)).asks ++ (Input.ofBytes (Text.bytes b)).asks, true⟩ := by
  refine ⟨fun bs => ?_, fun a b => ?_⟩
  · obtain ⟨texts, rest, hsplits, hrest, hasks, htext⟩ := Input.exists_ofBytes bs
    have hcalls : (Input.ofBytes bs).asks =
        (texts.map fun line => (ask? line).toList).flatten := by
      rw [hasks, asksOf, List.flatMap_def]
    obtain ⟨bodies, hbodies, hall⟩ := exists_bodies fun e he => isBody_of_mem_asksOf he
    rw [← hasks] at hbodies
    refine ⟨texts, rest, texts.map fun line => (ask? line).toList, bodies, hsplits, hrest,
      forall₂_asksFor texts, hcalls, htext, by rw [← hcalls, hbodies], hall, ?_, ?_⟩
    · intro n settings r r' hstart hothers
      obtain ⟨first, hs, hcreate, hrun, hmade, hserial, hserved, more, l, hmore, hmoreRun,
        hhandled⟩ := exists_run_of_feed hstart hothers (Input.ofBytes bs).asks
      refine ⟨first, hs, hcreate, hrun, hmade, hserial, hserved, more, l, hmore, hmoreRun, ?_⟩
      have hrun' : first.run (hs ++ more) = some l := (Steps.run_append hrun).trans hmoreRun
      have hcounter := (EventLoop.run_delivered (by rw [EventLoop.eq_of_create hcreate]) hrun' 0).1
      have hbroadcasts := EventLoop.run_broadcasts hcreate hrun'
      rw [hhandled, hbodies] at hcounter hbroadcasts
      rw [List.length_map] at hcounter
      rw [numbered_chat] at hbroadcasts
      exact ⟨hcounter, hbroadcasts⟩
    · exact fun settings first hs l => broadcasts_chat hbodies
  · rw [Text.bytes_append, Text.bytes_append, List.append_assoc]
    have hjoin := Input.ofBytes_join a (Text.bytes b)
    rwa [Input.isText_bytes] at hjoin

/-- A command after blanks and before a carriage return, a line of blanks only, two lines of chat,
and one line that is no text before the last. The client is there before all of them. -/
theorem lines_become_calls_up_to_broken_line :
    let bs := Text.bytes " \t/status x \r\n\u0085\nhello\r\nbye /now\n" ++
      255 :: 10 :: Text.bytes "lost"
    let asks := [.command ⟨"status x"⟩, .event (.chat "hello"), .event (.chat "bye /now")]
    let hs : List EventLoop.Happening := [.step 0 (.request 0), .step 0 .takeRequest,
      .step 0 (.call 0 (.command ⟨"status x"⟩)), .step 0 (.bring 0),
      .step 0 (.call 1 (.event (.chat "hello"))), .step 0 (.bring 1), .step 0 .takeEvent,
      .step 0 .takeCommand, .step 0 (.call 2 (.event (.chat "bye /now"))), .step 0 (.bring 2),
      .step 0 .takeEvent]
    (Input.ofBytes bs).asks = asks ∧ (Input.ofBytes bs).isText = false ∧ IsBody "bye /now" ∧
      (∃ r first fed, start {} .default = .ok r ∧ EventLoop.create .default = .ok first ∧
        first.run fed = some (feed asks r).loop ∧ EventLoop.made fed = asks ∧
        EventLoop.Serial fed first) ∧
      ∃ first l, EventLoop.create .default = .ok first ∧ first.run hs = some l ∧
        l.counter = 2 ∧ EventLoop.Broadcasts (chatMessages ["hello", "bye /now"]) hs first ∧
        (EventLoop.delivered 0 hs first).map (fun m => (m.kind, m.get? "body", m.id)) =
          [("message", some "hello", 0), ("message", some "bye /now", 1)] := by
  intro bs asks hs
  have hasks : (Input.ofBytes bs).asks = asks := by decide +kernel
  obtain ⟨_, _, calls, bodies, -, -, -, hcalls, -, hbodies, hall, hfeeds, hbroadcasts⟩ :=
    lines_become_calls.1 bs
  rw [← hcalls, hasks] at hbodies
  obtain rfl : ["hello", "bye /now"] = bodies :=
    List.map_injective_iff.mpr chat_injective hbodies
  rw [hasks] at hfeeds hbroadcasts
  refine ⟨hasks, by decide +kernel, hall "bye /now" (by simp), ?_, ?_⟩
  · obtain ⟨r, hstart⟩ : ∃ r, start {} .default = .ok r := ⟨_, rfl⟩
    obtain ⟨first, fed, hcreate, hrun, hmade, hserial, -⟩ := hfeeds {} .default r r hstart .refl
    exact ⟨r, first, fed, hstart, hcreate, hrun, hmade, hserial⟩
  · obtain ⟨first, hcreate, hran, hserial, hheard⟩ :
        ∃ first, EventLoop.create .default = .ok first ∧
          ((first.run hs).any fun l => l.counter = 2) = true ∧ EventLoop.Serial hs first ∧
          (EventLoop.delivered 0 hs first).map (fun m => (m.kind, m.get? "body", m.id)) =
            [("message", some "hello", 0), ("message", some "bye /now", 1)] :=
      ⟨_, rfl, by decide +kernel, by decide +kernel, by decide +kernel⟩
    obtain ⟨l, hrun, hcounter⟩ := (Option.any_eq_true _ _).mp hran
    have hcounter := of_decide_eq_true hcounter
    obtain ⟨k, hk, hnumber, hheards⟩ :=
      hbroadcasts .default first hs l hcreate hrun hserial (List.prefix_refl _)
    have htwo : ∀ k ≤ 2, Int64.ofNat k = 2 → k = 2 := by decide
    obtain rfl := htwo k hk (hnumber.symm.trans hcounter)
    exact ⟨first, l, hcreate, hrun, hcounter, hheards, hheard⟩

end HookRelay.Console
