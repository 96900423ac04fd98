import HookRelay.Proofs.EventLoop.Calls
import HookRelay.Proofs.EventLoop.Exhaustion

namespace HookRelay

/-- The event that is called for. -/
def Ask.event? : Ask → Option Event
  | .event e => some e
  | .command _ => none

namespace Intake

variable {α : Type} {i : Intake α}

theorem line_bring (ticket : Nat) (a : α) (hlistening : i.queue.isListening = true) :
    (i.accepting ticket a).map (·.2) ++ (i.bring ticket a).2.line.map (·.2) =
      i.line.map (·.2) ++ [a] := by
  unfold accepting bring
  rw [hlistening, Bool.not_true, if_neg Bool.false_ne_true]
  by_cases hroom : (i.line.isEmpty && i.queue.hasRoom) = true
  · have hline : i.line = [] := List.isEmpty_iff.mp (Bool.and_eq_true_iff.mp hroom).1
    rw [if_pos hroom, if_pos rfl, hline]
    rfl
  · rw [if_neg hroom, if_neg nofun, List.map_append]
    rfl

theorem accepting_of_deaf (ticket : Nat) (a : α) (hdeaf : i.queue.isListening = false) :
    i.accepting ticket a = [] := by
  unfold accepting bring
  rw [hdeaf]
  rfl

theorem admitting_of_deaf (hdeaf : i.queue.isListening = false) : i.admitting = [] := by
  refine admitting_of_letIn_eq_none ?_
  unfold letIn
  split
  · rfl
  · rw [hdeaf]
    rfl

end Intake

namespace EventLoop

/-- The call that is made. -/
def making (h : Happening) : List Ask :=
  match h with
  | .step _ (.call _ ask) => [ask]
  | _ => []

/-- The calls that are made in the course of a run. -/
def made (hs : List Happening) : List Ask := hs.flatMap making

theorem made_append (hs hs' : List Happening) : made (hs ++ hs') = made hs ++ made hs' :=
  List.flatMap_append

/-- The calls that are on their way when one more is made. -/
def ahead (h : Happening) (l : EventLoop) : List (Nat × Ask) :=
  match h with
  | .step _ (.call _ _) => l.begun
  | _ => []

/-- No call is made while another one is on its way. -/
def Serial (hs : List Happening) (start : EventLoop) : Prop := Steps.seen happen ahead hs start = []

instance (hs : List Happening) (start : EventLoop) : Decidable (Serial hs start) :=
  inferInstanceAs (Decidable (Steps.seen happen ahead hs start = []))

/-- The events that are called for and have not come to their intake yet, those in line
first. -/
def coming (l : EventLoop) : List Event :=
  l.events.line.map (·.2) ++ l.begun.filterMap (·.2.event?)

variable {l l' : EventLoop} {a : Action} {h : Happening} {now : Nat}

section Coming

theorem eq_of_find?_of_length_le {α : Type} {xs : List α} {p : α → Bool} {x : α}
    (hone : xs.length ≤ 1) (hfind : xs.find? p = some x) : xs = [x] ∧ xs.eraseP p = [] := by
  match xs, hone with
  | [], _ => cases hfind
  | [y], _ =>
      have hy := List.find?_some hfind
      obtain rfl := List.mem_singleton.mp (List.mem_of_find?_eq_some hfind)
      exact ⟨rfl, by rw [List.eraseP_cons_of_pos hy]⟩

theorem coming_settleCall (ticket : Nat) (entry : Entry) :
    (settleCall ticket entry l).coming = l.coming := by
  cases entry <;> rfl

theorem coming_of_serve {ticket : Nat} {e : Option CallError} {events : Intake Event}
    (hlistening : l.events.queue.isListening = true)
    (hserve : serve l.events = some (ticket, e, events)) :
    l.events.admitting.map (·.2) ++ events.line.map (·.2) = l.events.line.map (·.2) := by
  unfold serve at hserve
  split at hserve
  · next hletIn =>
    cases hserve
    obtain ⟨x, hline, hadmitting, -⟩ := Intake.admitting_of_letIn hletIn
    rw [hadmitting, hline]
    rfl
  · obtain ⟨_, hdismiss, -⟩ := Option.map_eq_some_iff.mp hserve
    rw [Intake.isListening_of_dismiss hdismiss] at hlistening
    cases hlistening

/-- What becomes of the events that are on their way, as long as the loop listens: some come
to the intake, from the front, and the one that is called for comes last. -/
def LinesUp (h : Happening) (l l' : EventLoop) : Prop :=
  (l.arriving .events h).map (·.2) ++ l'.coming =
    l.coming ++ if l.stopping then [] else (making h).filterMap Ask.event?

theorem LinesUp.of_eq (hcoming : l'.coming = l.coming) (harriving : l.arriving .events h = [])
    (hmaking : making h = []) : LinesUp h l l' := by
  rw [LinesUp, harriving, hmaking, hcoming, List.filterMap_nil, ite_self, List.append_nil]
  rfl

theorem Around.linesUp (hlistening : l.events.queue.isListening = true)
    (hone : l.begun.length ≤ 1) (hahead : l.ahead (.step now a) = [])
    (haround : Around l a l') : LinesUp (.step now a) l l' := by
  cases haround with
  | callRefused _ hstopping =>
      rw [LinesUp, hstopping, if_pos rfl, List.append_nil]
      rfl
  | @call ticket ask _ hstopping =>
      have hbegun : l.begun = [] := hahead
      rw [LinesUp, hstopping, if_neg Bool.false_ne_true, coming, coming, hbegun]
      cases ask <;> simp [making, arriving, Ask.event?]
  | @bring ticket t ask hfind =>
      obtain ⟨hbegun, hrest⟩ := eq_of_find?_of_length_le hone hfind
      have hcoming : l.coming = l.events.line.map (·.2) ++ ask.event?.toList := by
        rw [coming, hbegun]
        cases ask <;> rfl
      rw [LinesUp, arriving_bring hfind, hrest, hcoming]
      cases ask with
      | event e =>
          dsimp only [bringAsk]
          rw [coming_settleCall]
          have hline := Intake.line_bring ticket e hlistening
          simpa [coming, making, asking, Ask.event?] using hline
      | command c =>
          dsimp only [bringAsk]
          rw [coming_settleCall]
          simp [coming, making, asking, Ask.event?]
  | serveEvent hserve =>
      have hline := coming_of_serve hlistening hserve
      have harriving : l.arriving .events (.step now .serveEvent) = l.events.admitting := rfl
      rw [LinesUp, harriving, coming, coming, ← hline]
      simp [making, answer]
  | serveCommand | requestRefused | request | requestLetIn | requestDismissed | serveMessage
  | addEventSender | dropEventSender | dropCommandSender | dropRequestSender | stop =>
      exact .of_eq rfl rfl rfl

theorem Turn.line_events (hturn : Turn now l a l') : l'.events.line = l.events.line := by
  cases hturn with
  | quits | command | message => rfl
  | event _ htake => exact Intake.line_of_take htake
  | noEvent | noCommand | noRequest =>
      unfold checkOver
      split <;> rfl
  | request =>
      unfold register
      split <;> rfl

theorem Turn.linesUp (hturn : Turn now l a l') : LinesUp (.step now a) l l' := by
  refine .of_eq ?_ (by cases hturn <;> rfl) (by cases hturn <;> rfl)
  rw [coming, coming, hturn.line_events, hturn.sameCalls.begun]

theorem happen_linesUp (hlistening : l.events.queue.isListening = true)
    (hone : l.begun.length ≤ 1) (hahead : l.ahead h = []) (hhappen : l.happen h = some l') :
    LinesUp h l l' := by
  cases h with
  | step now a =>
      rcases step_cases hhappen with ⟨o, st, _, rfl, -, -, rfl⟩ | ⟨-, hturn⟩ | haround
      · cases o <;> exact .of_eq rfl rfl rfl
      · exact hturn.linesUp
      · exact haround.linesUp hlistening hone hahead
  | takeInbox | dropInbox | stopClient | bring | leave | dropMessageSender | note =>
      cases hhappen
      exact .of_eq rfl rfl rfl

end Coming

section Listening

theorem isListening_of_checkOver (hlistening : l.checkOver.events.queue.isListening = true) :
    l.events.queue.isListening = true := by
  unfold checkOver at hlistening
  split at hlistening
  · exact hlistening
  · cases hlistening

theorem Turn.isListening (hturn : Turn now l a l')
    (hlistening : l'.events.queue.isListening = true) : l.events.queue.isListening = true := by
  cases hturn with
  | quits => cases hlistening
  | event _ htake =>
      rw [← (Intake.sameEnds_take htake).isListening]
      exact hlistening
  | noEvent | noCommand | noRequest =>
      have hbefore := isListening_of_checkOver hlistening
      exact hbefore
  | command | message => exact hlistening
  | request =>
      unfold register at hlistening
      split at hlistening <;> exact hlistening

theorem isListening_of_happen (hhappen : l.happen h = some l')
    (hlistening : l'.events.queue.isListening = true) : l.events.queue.isListening = true := by
  cases h with
  | step now a =>
      rcases step_cases hhappen with ⟨o, st, _, rfl, -, -, rfl⟩ | ⟨-, hturn⟩ | haround
      · cases o <;> exact hlistening
      · exact hturn.isListening hlistening
      · have hreceiver := haround.samePolls.receiver .events
        change l'.events.queue.receiver = l.events.queue.receiver at hreceiver
        rwa [Mailbox.isListening, hreceiver] at hlistening
  | takeInbox | dropInbox | stopClient | bring | leave | dropMessageSender | note =>
      cases hhappen
      exact hlistening

theorem arriving_of_deaf (hdeaf : l.events.queue.isListening = false) (h : Happening) :
    l.arriving .events h = [] := by
  cases h with
  | step now a =>
      cases a with
      | bring ticket =>
          change (l.calling ticket).elim [] (l.asking .events ticket) = []
          cases l.calling ticket with
          | none => rfl
          | some ask =>
              cases ask with
              | event e => exact Intake.accepting_of_deaf ticket e hdeaf
              | command c => rfl
      | serveEvent => exact Intake.admitting_of_deaf hdeaf
      | _ => rfl
  | takeInbox | dropInbox | stopClient | bring | leave | dropMessageSender | note => rfl

end Listening

section Begun

theorem length_begun_happen (hone : l.begun.length ≤ 1) (hahead : l.ahead h = [])
    (hhappen : l.happen h = some l') : l'.begun.length ≤ 1 := by
  cases h with
  | step now a =>
      rcases step_cases hhappen with ⟨o, st, _, rfl, -, -, rfl⟩ | ⟨-, hturn⟩ | haround
      · cases o <;> exact hone
      · rwa [hturn.sameCalls.begun]
      · cases haround with
        | call =>
            have hbegun : l.begun = [] := hahead
            rw [hbegun]
            exact Nat.le_refl 1
        | bring hfind =>
            rw [begun_bringAsk, (eq_of_find?_of_length_le hone hfind).2]
            exact Nat.zero_le 1
        | callRefused | serveEvent | serveCommand | requestRefused | request | requestLetIn
        | requestDismissed | serveMessage | addEventSender | dropEventSender | dropCommandSender
        | dropRequestSender | stop => exact hone
  | takeInbox | dropInbox | stopClient | bring | leave | dropMessageSender | note =>
      cases hhappen
      exact hone

end Begun

/-- The events have come to their intake in the order of the calls. As long as the loop listens,
those that are on their way come next, and none is missing unless the loop has been told to
stop. -/
structure InOrder (wanted came : List Event) (l : EventLoop) : Prop where
  one : l.begun.length ≤ 1
  arrived : came <+: wanted
  coming : l.events.queue.isListening = true → came ++ l.coming <+: wanted
  going : l.events.queue.isListening = true → l.stopping = false → came ++ l.coming = wanted

theorem InOrder.happen {wanted came : List Event} (hl : InOrder wanted came l)
    (hahead : l.ahead h = []) (hhappen : l.happen h = some l') :
    InOrder (wanted ++ (making h).filterMap Ask.event?)
      (came ++ (l.arriving .events h).map (·.2)) l' := by
  have hone := length_begun_happen hl.one hahead hhappen
  have hlater : wanted <+: wanted ++ (making h).filterMap Ask.event? := List.prefix_append _ _
  cases hlistening : l.events.queue.isListening with
  | false =>
      have hdeaf : ¬ l'.events.queue.isListening = true := fun hlistening' =>
        Bool.false_ne_true (hlistening.symm.trans (isListening_of_happen hhappen hlistening'))
      refine ⟨hone, ?_, fun hlistening' => absurd hlistening' hdeaf,
        fun hlistening' => absurd hlistening' hdeaf⟩
      rw [arriving_of_deaf hlistening, List.map_nil, List.append_nil]
      exact hl.arrived.trans hlater
  | true =>
      have hlinesUp : LinesUp h l l' := happen_linesUp hlistening hl.one hahead hhappen
      rw [LinesUp] at hlinesUp
      have hcoming : came ++ (l.arriving .events h).map (·.2) ++ l'.coming =
          came ++ l.coming ++ if l.stopping then [] else (making h).filterMap Ask.event? := by
        rw [List.append_assoc, hlinesUp, ← List.append_assoc]
      have hall : l.stopping = false → came ++ (l.arriving .events h).map (·.2) ++ l'.coming =
          wanted ++ (making h).filterMap Ask.event? := by
        intro hgoing
        rw [hcoming, hgoing, hl.going hlistening hgoing, if_neg Bool.false_ne_true]
      have hprefix : came ++ (l.arriving .events h).map (·.2) ++ l'.coming <+:
          wanted ++ (making h).filterMap Ask.event? := by
        cases hstopping : l.stopping with
        | false => exact (hall hstopping) ▸ List.prefix_rfl
        | true =>
            rw [hcoming, hstopping, if_pos rfl, List.append_nil]
            exact (hl.coming hlistening).trans hlater
      refine ⟨hone, (List.prefix_append _ _).trans hprefix, fun _ => hprefix,
        fun _ hgoing => ?_⟩
      refine hall (Bool.eq_false_iff.mpr fun hstopping => ?_)
      rw [(happen_retains hhappen).stopping hstopping] at hgoing
      cases hgoing

theorem Serial.append {start : EventLoop} {hs hs' : List Happening}
    (hrun : start.run hs = some l) (hserial : Serial hs start) (hserial' : Serial hs' l) :
    Serial (hs ++ hs') start :=
  (Steps.seen_append hrun).trans (List.append_eq_nil_iff.mpr ⟨hserial, hserial'⟩)

/-- Between calls that are made one after another the events stay in the order of the calls. -/
theorem Serial.inOrder {start : EventLoop} {hs : List Happening} {settings : Settings}
    (hcreate : create settings = .ok start) (hrun : start.run hs = some l)
    (hserial : Serial hs start) :
    InOrder ((made hs).filterMap Ask.event?) ((arrivals .events hs start).map (·.2)) l := by
  revert hserial
  refine Steps.run_induction (P := fun hs l => Serial hs start →
    InOrder ((made hs).filterMap Ask.event?) ((arrivals .events hs start).map (·.2)) l) ?_ ?_ hrun
  · intro _
    rw [eq_of_create hcreate]
    exact ⟨Nat.zero_le 1, List.nil_prefix, fun _ => List.nil_prefix, fun _ _ => rfl⟩
  · intro hs h l l' hrun ih hhappen hserial
    obtain ⟨hserial, hahead⟩ := List.append_eq_nil_iff.mp
      ((Steps.seen_concat hrun hhappen).symm.trans hserial)
    have harrivals : arrivals .events (hs ++ [h]) start =
        arrivals .events hs start ++ l.arriving .events h := Steps.seen_concat hrun hhappen
    have hmade : made (hs ++ [h]) = made hs ++ making h :=
      (made_append _ _).trans (congrArg _ (List.flatMap_singleton _ _))
    rw [harrivals, List.map_append, hmade, List.filterMap_append]
    exact (ih hserial).happen hahead hhappen

theorem Serial.handled_in_order {start : EventLoop} {hs : List Happening} {settings : Settings}
    (hcreate : create settings = .ok start) (hrun : start.run hs = some l)
    (hserial : Serial hs start) :
    handled .events hs start <+: (made hs).filterMap Ask.event? := by
  obtain ⟨rest, hconserves, -⟩ := run_conserves (s := .events) hrun
  rw [queued_of_create hcreate, List.nil_append] at hconserves
  refine List.IsPrefix.trans ?_ (hserial.inOrder hcreate hrun).arrived
  rw [hconserves]
  exact List.prefix_append _ _

end EventLoop

end HookRelay
