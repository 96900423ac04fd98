import HookRelay.Proofs.EventLoop.Issuing
import HookRelay.Proofs.Relay.Parts
import HookRelay.Relay.Settle
/-!
A relay that is left to itself. Its tasks take their turns in some order, but all that they do
is to take steps of the relay, none of which is a caller's; and what such a step is for the
event loop is nothing that callers do.
-/

namespace HookRelay

namespace Schedule

variable {σ α : Type}

/-- A task that takes steps of a kind, and does nothing else. -/
def TakesSteps (next : α → σ → Option σ) (kind : α → Prop)
    (task : σ → Option σ) : Prop :=
  ∀ s s', task s = some s' → Steps.Reaches next kind s s'

variable {next : α → σ → Option σ} {kind : α → Prop} {task : σ → Option σ}

theorem exhaust_takesSteps (htask : TakesSteps next kind task) (fuel : Nat) :
    TakesSteps next kind (exhaust task fuel) := by
  induction fuel with
  | zero => nofun
  | succ fuel ih =>
      intro s s' h
      obtain ⟨s₁, hs₁, rfl⟩ := Option.map_eq_some_iff.mp h
      have hfirst := htask s s₁ hs₁
      cases hrest : exhaust task fuel s₁ with
      | none => exact hfirst
      | some s₂ => exact hfirst.trans (ih s₁ s₂ hrest)

theorem inTurn_takesSteps {tasks : List (σ → Option σ)}
    (htasks : ∀ task ∈ tasks, TakesSteps next kind task) :
    TakesSteps next kind (inTurn tasks) := by
  -- Each task goes on from where the ones before it have come to.
  have hfold : ∀ (moved : Option σ) (s : σ),
      (∀ s', moved = some s' → Steps.Reaches next kind s s') →
      ∀ s', tasks.foldl (fun moved task => (task (moved.getD s)).or moved) moved = some s' →
        Steps.Reaches next kind s s' := by
    induction tasks with
    | nil => exact fun _ _ hmoved => hmoved
    | cons task tasks ih =>
        obtain ⟨htask, htasks⟩ := List.forall_mem_cons.mp htasks
        intro moved s hmoved
        refine ih htasks _ s fun s' hs' => ?_
        rcases Option.or_eq_some_iff.mp hs' with hs' | ⟨-, hs'⟩
        · cases moved with
          | none => exact htask _ _ hs'
          | some s₁ => exact (hmoved s₁ rfl).trans (htask _ _ hs')
        · exact hmoved s' hs'
  exact fun s => hfold none s nofun

end Schedule

namespace Relay

/-- Whether a step of the relay is nothing that callers do. -/
def Action.IsOthers : Action → Prop
  | .loop a => EventLoop.isCallers a = false
  | _ => True

variable {r r' : Relay} {a : Action}

open Schedule (TakesSteps)

theorem firstOf_reaches {attempts : List Action} (hothers : ∀ a ∈ attempts, a.IsOthers)
    (h : r.firstOf attempts = some r') : Steps.Reaches step Action.IsOthers r r' := by
  obtain ⟨a, ha, hstep⟩ := List.exists_of_findSome?_eq_some h
  exact .single (hothers a ha) hstep

theorem isOthers_chatAttempts (chat : ChatSession) :
    ∀ a ∈ r.chatAttempts chat, a.IsOthers := by
  unfold chatAttempts
  intro a ha
  split at ha
  · dsimp only at ha
    split at ha
    · split at ha <;> (cases List.mem_singleton.mp ha; rfl)
    · cases List.mem_singleton.mp ha
      rfl
  · cases ha

theorem loopTurn_takesSteps (chat : ChatSession) :
    TakesSteps step Action.IsOthers (loopTurn chat) := by
  refine fun r r' h => firstOf_reaches (fun a ha => ?_) h
  rcases List.mem_append.mp ha with ha | ha
  · exact isOthers_chatAttempts chat a ha
  · simp only [List.mem_cons, List.not_mem_nil, or_false] at ha
    rcases ha with rfl | rfl | rfl | rfl | rfl <;> rfl

theorem lineTurn_takesSteps : TakesSteps step Action.IsOthers lineTurn := by
  refine fun r r' h => firstOf_reaches (fun a ha => ?_) h
  simp only [List.mem_cons, List.not_mem_nil, or_false] at ha
  rcases ha with rfl | rfl | rfl | rfl <;> rfl

theorem connectionTurn_takesSteps (i : Nat) :
    TakesSteps step Action.IsOthers (connectionTurn i) := by
  intro r r' h
  obtain ⟨s, -, h⟩ := Option.bind_eq_some_iff.mp h
  obtain ⟨l, -, h⟩ := Option.bind_eq_some_iff.mp h
  refine firstOf_reaches (fun a ha => ?_) h
  obtain ⟨a, -, rfl⟩ := List.mem_map.mp ha
  trivial

theorem clientTurn_takesSteps (k : Nat) : TakesSteps step Action.IsOthers (clientTurn k) := by
  intro r r' h
  obtain ⟨s, -, h⟩ := Option.bind_eq_some_iff.mp h
  split at h
  · cases h
  · exact .single (a := Action.receive k) trivial h

theorem acceptorTurn_takesSteps : TakesSteps step Action.IsOthers acceptorTurn := by
  refine fun r r' h => firstOf_reaches (fun a ha => ?_) h
  simp only [List.mem_cons, List.not_mem_nil, or_false] at ha
  rcases ha with rfl | rfl | rfl | rfl <;> trivial

theorem round_takesSteps (chat : ChatSession) : TakesSteps step Action.IsOthers (round chat) := by
  have hall : ∀ {turn : Relay → Option Relay}, TakesSteps step Action.IsOthers turn →
      TakesSteps step Action.IsOthers fun r => Schedule.exhaust turn r.work r :=
    fun hturn r r' h => Schedule.exhaust_takesSteps hturn r.work r r' h
  intro r
  refine Schedule.inTurn_takesSteps (fun task htask => ?_) r
  simp only [List.mem_append, List.mem_cons, List.not_mem_nil, or_false, List.mem_map] at htask
  rcases htask with (((rfl | rfl) | ⟨i, -, rfl⟩) | ⟨k, -, rfl⟩) | rfl
  · exact hall (loopTurn_takesSteps chat)
  · exact hall lineTurn_takesSteps
  · exact hall (connectionTurn_takesSteps i)
  · exact clientTurn_takesSteps k
  · exact hall acceptorTurn_takesSteps

/-- A relay that is left to itself takes steps that are no caller's. -/
theorem settle_reaches (chat : ChatSession) (r : Relay) :
    Steps.Reaches step Action.IsOthers r (r.settle chat) := by
  unfold settle
  cases h : Schedule.exhaust (round chat) (r.work * (Wire.maxPayload + 2)) r with
  | none => exact .refl
  | some r' => exact Schedule.exhaust_takesSteps (round_takesSteps chat) _ r r' h

section Loop

open EventLoop (Happening)

theorem isOthers_of_isBy {client ticket : Nat} (h : Happening) (hby : h.IsBy client ticket) :
    h.IsOthers := by
  cases h with
  | step => exact hby.elim
  | takeInbox | dropInbox | stopClient | bring | leave | dropMessageSender | note => trivial

theorem endAcceptor_reaches (state : ListenerState) (first : Nat) (loop : EventLoop) :
    Steps.Reaches EventLoop.happen Happening.IsOthers loop
      ({ r with loop }.endAcceptor state first).loop := by
  have hdrop : Steps.Reaches EventLoop.happen Happening.IsOthers loop
      { loop with requests := loop.requests.dropSender } :=
    .single (a := Happening.step r.now .dropRequestSender) rfl
      EventLoop.Around.dropRequestSender.step
  exact hdrop.trans (.single (a := Happening.note [.listenerExited 1]) trivial rfl)

theorem loop_reaches_of_step (hothers : a.IsOthers) (hstep : r.step a = some r') :
    Steps.Reaches EventLoop.happen Happening.IsOthers r.loop r'.loop := by
  cases turn_of_step hstep with
  | @loop a _ _ hloop => exact .single (a := Happening.step r.now a) hothers hloop
  | @cannotListen e =>
      have hnote : Steps.Reaches EventLoop.happen Happening.IsOthers r.loop
          (r.loop.write [.listenFailed e.text]) :=
        .single (a := Happening.note [.listenFailed e.text]) trivial rfl
      exact hnote.trans (endAcceptor_reaches _ _ _)
  | stops | turnedDown => exact endAcceptor_reaches _ _ _
  | accepts _ _ hloop =>
      exact .single (a := Happening.step r.now (.request r.acceptor.accepted)) rfl hloop
  | connects _ hl hmoves => exact (connect_reaches (i := 0) hl hmoves).mono isOthers_of_isBy
  | listens | serves | dials | sends | halfCloses | closes | receives | ticks => exact .refl

theorem loop_reaches_of_reaches (hreaches : Steps.Reaches step Action.IsOthers r r') :
    Steps.Reaches EventLoop.happen Happening.IsOthers r.loop r'.loop :=
  hreaches.keeps (P := fun r' => Steps.Reaches _ _ r.loop r'.loop) .refl
    fun _ _ _ hothers hstep hreached => hreached.trans (loop_reaches_of_step hothers hstep)

end Loop

end Relay

end HookRelay
