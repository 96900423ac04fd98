import HookRelay.Proofs.EventLoop.Closing
import HookRelay.Proofs.EventLoop.Serial
/-!
A caller that makes one call after another. Between two calls everybody else may do anything:
as long as the loop is not told to stop and the caller keeps its senders, each call gets under
way, comes to its intake, and leaves the loop waiting for the next one.
-/

namespace HookRelay.EventLoop

/-- What only callers do to the loop. -/
def isCallers : Action → Bool
  | .call _ _ | .bring _ | .addEventSender | .dropEventSender | .dropCommandSender | .stop => true
  | _ => false

/-- Whether this is nothing that callers do. -/
def Happening.IsOthers : Happening → Prop
  | .step _ a => isCallers a = false
  | _ => True

/-- The loop has not been told to stop, no call is on its way, and any call can be made. -/
structure AwaitsCall (l : EventLoop) : Prop where
  going : l.stopping = false
  begun : l.begun = []
  senders : ∀ ask, l.hasSender ask = true

/-- The loop has come from one state to the other while these calls were made, one after
another, and it was not told to stop. -/
def Issues (asks : List Ask) (start l : EventLoop) : Prop :=
  ∃ hs, start.run hs = some l ∧ made hs = asks ∧ Serial hs start ∧
    ∀ now, .step now .stop ∉ hs

/-- Nothing that concerns the next call has changed. -/
structure LeavesCalls (l l' : EventLoop) : Prop where
  stopping : l'.stopping = l.stopping
  begun : l'.begun = l.begun
  hasSender : ∀ ask, l'.hasSender ask = l.hasSender ask

variable {l l' l'' : EventLoop} {a : Action} {h : Happening} {now : Nat} {asks asks' : List Ask}

namespace Happening.IsOthers

theorem making (hothers : h.IsOthers) : making h = [] := by
  cases h with
  | step now a => cases a <;> first | rfl | cases hothers
  | _ => rfl

theorem ahead (hothers : h.IsOthers) : l.ahead h = [] := by
  cases h with
  | step now a => cases a <;> first | rfl | cases hothers
  | _ => rfl

theorem ne_stop (hothers : h.IsOthers) (now : Nat) : h ≠ .step now .stop := by
  rintro rfl
  cases hothers

end Happening.IsOthers

section Others

theorem hasSender_of_senders_eq (hevents : l'.events.queue.senders = l.events.queue.senders)
    (hcommands : l'.commands.queue.senders = l.commands.queue.senders) (ask : Ask) :
    l'.hasSender ask = l.hasSender ask := by
  rw [hasSender, hasSender, hevents, hcommands]

theorem leavesCalls_bringAsk (ticket : Nat) (ask : Ask) :
    LeavesCalls l (bringAsk ticket ask l) := by
  obtain ⟨events, commands, answers, hbring, hevents, hcommands⟩ := exists_bringAsk ticket ask l
  rw [hbring]
  exact ⟨rfl, rfl, hasSender_of_senders_eq hevents.senders hcommands.senders⟩

theorem leavesCalls_exit : LeavesCalls l l.exit :=
  ⟨rfl, rfl, hasSender_of_senders_eq rfl rfl⟩

theorem leavesCalls_checkOver : LeavesCalls l l.checkOver := by
  unfold checkOver
  split
  · exact ⟨rfl, rfl, fun _ => rfl⟩
  · exact leavesCalls_exit

theorem Turn.leavesCalls (hturn : Turn now l a l') : LeavesCalls l l' := by
  refine ⟨hturn.sameCalls.stopping, hturn.sameCalls.begun, ?_⟩
  cases hturn with
  | quits => exact leavesCalls_exit.hasSender
  | event _ htake => exact hasSender_of_senders_eq (Intake.sameEnds_take htake).senders rfl
  | command _ htake => exact hasSender_of_senders_eq rfl (Intake.sameEnds_take htake).senders
  | message => exact fun _ => rfl
  | noEvent | noCommand | noRequest => exact leavesCalls_checkOver.hasSender
  | request =>
      unfold register
      split <;> exact fun _ => rfl

theorem Around.leavesCalls (haround : Around l a l') (hothers : isCallers a = false) :
    LeavesCalls l l' := by
  cases haround with
  | serveEvent hserve =>
      exact ⟨rfl, rfl, hasSender_of_senders_eq (sameEnds_serve hserve).senders rfl⟩
  | serveCommand hserve =>
      exact ⟨rfl, rfl, hasSender_of_senders_eq rfl (sameEnds_serve hserve).senders⟩
  | callRefused | call | bring | addEventSender | dropEventSender | dropCommandSender | stop =>
      cases hothers
  | requestRefused | request | requestLetIn | requestDismissed | serveMessage
  | dropRequestSender => exact ⟨rfl, rfl, fun _ => rfl⟩

theorem leavesCalls_happen (hothers : h.IsOthers) (hhappen : l.happen h = some l') :
    LeavesCalls l l' := by
  cases h with
  | step now a =>
      rcases step_cases hhappen with ⟨o, st, _, rfl, -, -, rfl⟩ | ⟨-, hturn⟩ | haround
      · cases o <;> exact ⟨rfl, rfl, fun _ => rfl⟩
      · exact hturn.leavesCalls
      · exact haround.leavesCalls hothers
  | takeInbox | dropInbox | stopClient | bring | leave | dropMessageSender | note =>
      cases hhappen
      exact ⟨rfl, rfl, fun _ => rfl⟩

theorem AwaitsCall.of_leavesCalls (hl : AwaitsCall l) (h : LeavesCalls l l') : AwaitsCall l' :=
  ⟨h.stopping.trans hl.going, h.begun.trans hl.begun,
    fun ask => (h.hasSender ask).trans (hl.senders ask)⟩

theorem AwaitsCall.of_reaches (hl : AwaitsCall l)
    (hreaches : Steps.Reaches happen Happening.IsOthers l l') : AwaitsCall l' :=
  hreaches.keeps hl fun _ _ _ hothers hhappen hl =>
    hl.of_leavesCalls (leavesCalls_happen hothers hhappen)

theorem awaitsCall_of_create {settings : Settings} (hcreate : create settings = .ok l) :
    AwaitsCall l := by
  rw [eq_of_create hcreate]
  exact ⟨rfl, rfl, fun ask => by cases ask <;> rfl⟩

end Others

namespace Issues

theorem refl : Issues [] l l := ⟨[], rfl, rfl, rfl, nofun⟩

theorem trans (h : Issues asks l l') (h' : Issues asks' l' l'') : Issues (asks ++ asks') l l'' := by
  obtain ⟨hs, hrun, hmade, hserial, hstop⟩ := h
  obtain ⟨hs', hrun', hmade', hserial', hstop'⟩ := h'
  refine ⟨hs ++ hs', (Steps.run_append hrun).trans hrun', ?_, hserial.append hrun hserial',
    fun now hmem => ?_⟩
  · rw [made_append, hmade, hmade']
  · exact (List.mem_append.mp hmem).elim (hstop now) (hstop' now)

theorem single (hhappen : l.happen h = some l') (hmaking : making h = asks)
    (hahead : l.ahead h = []) (hstop : ∀ now, h ≠ .step now .stop) : Issues asks l l' := by
  refine ⟨[h], Steps.run_singleton hhappen, ?_, ?_, fun now hmem => ?_⟩
  · rw [made, List.flatMap_singleton, hmaking]
  · rw [Serial, Steps.seen_singleton hhappen, hahead]
  · exact hstop now (List.mem_singleton.mp hmem).symm

theorem of_others (hothers : h.IsOthers) (hhappen : l.happen h = some l') : Issues [] l l' :=
  .single hhappen hothers.making hothers.ahead hothers.ne_stop

theorem of_reaches (hreaches : Steps.Reaches happen Happening.IsOthers l l') : Issues [] l l' :=
  hreaches.keeps (P := fun l' => Issues [] l l') .refl
    fun _ _ _ hothers hhappen hissues => hissues.trans (.of_others hothers hhappen)

end Issues

/-- A loop that awaits a call lets it be made and come to its intake, and awaits the next
one. -/
theorem AwaitsCall.issues (hl : AwaitsCall l) (now ticket : Nat) (ask : Ask) :
    ∃ l₁ l₂, l.step now (.call ticket ask) = some l₁ ∧
      l₁.step now (.bring ticket) = some l₂ ∧
      Issues [ask] l l₂ ∧ AwaitsCall l₂ := by
  have hcall : Around l (.call ticket ask) { l with begun := l.begun ++ [(ticket, ask)] } :=
    .call (hl.senders ask) hl.going
  have hfind : (l.begun ++ [(ticket, ask)]).find? (·.1 == ticket) = some (ticket, ask) := by
    simp [hl.begun]
  have hbring : Around { l with begun := l.begun ++ [(ticket, ask)] } (.bring ticket) _ :=
    .bring hfind
  refine ⟨_, _, hcall.step, hbring.step, ?_, ?_⟩
  · have hissues : Issues [ask] l _ :=
      .single (h := Happening.step now (.call ticket ask)) hcall.step rfl hl.begun nofun
    exact hissues.trans
      (.single (h := Happening.step now (.bring ticket)) hbring.step rfl rfl nofun)
  · have hbegun : (l.begun ++ [(ticket, ask)]).eraseP (·.1 == ticket) = [] := by
      simp [hl.begun]
    have hleft : AwaitsCall
        { l with begun := (l.begun ++ [(ticket, ask)]).eraseP (·.1 == ticket) } :=
      ⟨hl.going, hbegun, hl.senders⟩
    exact hleft.of_leavesCalls (leavesCalls_bringAsk ticket ask)

end HookRelay.EventLoop
