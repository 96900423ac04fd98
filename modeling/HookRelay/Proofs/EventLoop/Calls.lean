import HookRelay.Proofs.EventLoop.Conservation

namespace HookRelay

namespace Intake

variable {α : Type} {i i' : Intake α} {a : α}

/-- The tickets of those who stand in line. -/
def waiting (i : Intake α) : List Nat := i.line.map (·.1)

theorem count_bring (ticket t : Nat) (a : α) (i : Intake α) :
    ((i.accepting ticket a).map (·.1)).count t + (i.bring ticket a).2.waiting.count t +
        (if (i.bring ticket a).1 = .refused then [ticket] else []).count t =
      i.waiting.count t + [ticket].count t := by
  unfold accepting bring
  split
  · rw [if_neg nofun, if_pos rfl]
    simp
  · split
    · rw [if_pos rfl, if_neg nofun]
      simp [waiting, Nat.add_comm]
    · rw [if_neg nofun, if_neg nofun]
      simp [waiting]

end Intake

namespace EventLoop

/-- The ticket of the call that is made. -/
def asked (h : Happening) : List Nat :=
  match h with
  | .step _ (.call ticket _) => [ticket]
  | _ => []

/-- The tickets of all calls that are made in the course of a run. -/
def called (hs : List Happening) : List Nat := hs.flatMap asked

/-- The calls that have been turned down. -/
def turnedDown (l : EventLoop) : List Nat :=
  (l.answers.filter (·.2 = some .stopped)).map (·.1)

/-- The calls that have not come to their intake. -/
def outstanding (l : EventLoop) : List Nat :=
  l.begun.map (·.1) ++ (l.events.waiting ++ (l.commands.waiting ++ l.turnedDown))

/-- The calls that come to their intake. -/
def settling (h : Happening) (l : EventLoop) : List Nat :=
  (l.arriving .events h).map (·.1) ++ (l.arriving .commands h).map (·.1)

/-- Each call that is outstanding, or is made, comes to its intake or is outstanding
afterwards. -/
def Settles (h : Happening) (l l' : EventLoop) : Prop :=
  ∀ t, (l.settling h).count t + l'.outstanding.count t =
    l.outstanding.count t + (asked h).count t

variable {l l' : EventLoop} {a : Action} {h : Happening} {now : Nat}

theorem Settles.of_eq (houtstanding : l'.outstanding = l.outstanding)
    (hsettling : l.settling h = []) (hasked : asked h = []) : Settles h l l' := by
  intro t
  rw [houtstanding, hsettling, hasked, List.count_nil]
  omega

theorem turnedDown_answer (ticket : Nat) (e : Option CallError) :
    (l.answer ticket e).turnedDown =
      l.turnedDown ++ if e = some .stopped then [ticket] else [] := by
  rw [turnedDown, answer, List.filter_append, List.map_append]
  by_cases he : e = some .stopped
  · rw [if_pos he, List.filter_cons_of_pos (by simpa using he)]
    rfl
  · rw [if_neg he, List.filter_cons_of_neg (by simpa using he)]
    rfl

theorem outstanding_answer (ticket : Nat) (e : Option CallError) :
    (l.answer ticket e).outstanding =
      l.outstanding ++ if e = some .stopped then [ticket] else [] := by
  rw [outstanding, turnedDown_answer, outstanding, List.append_assoc, List.append_assoc,
    List.append_assoc]
  rfl

theorem outstanding_settleCall (ticket : Nat) (entry : Entry) :
    (settleCall ticket entry l).outstanding =
      l.outstanding ++ if entry = .refused then [ticket] else [] := by
  cases entry with
  | accepted => exact outstanding_answer ticket none
  | refused => exact outstanding_answer ticket (some .stopped)
  | waits => exact (List.append_nil _).symm

theorem count_serve {α : Type} {i i' : Intake α} {ticket t : Nat} {e : Option CallError}
    (h : serve i = some (ticket, e, i')) :
    (i.admitting.map (·.1)).count t + i'.waiting.count t +
        (if e = some .stopped then [ticket] else []).count t = i.waiting.count t := by
  unfold serve at h
  split at h
  · next hletIn =>
    cases h
    obtain ⟨b, hline, hadmitting, -⟩ := Intake.admitting_of_letIn hletIn
    rw [hadmitting, Intake.waiting, Intake.waiting, hline, if_neg nofun, ← List.count_append]
    rfl
  · next hletIn =>
    obtain ⟨⟨ticket, j⟩, hdismiss, hj⟩ := Option.map_eq_some_iff.mp h
    cases hj
    unfold Intake.dismiss at hdismiss
    split at hdismiss
    · cases hdismiss
    · next hline =>
      split at hdismiss <;> cases hdismiss
      rw [Intake.admitting_of_letIn_eq_none hletIn, Intake.waiting, Intake.waiting, hline,
        if_pos rfl, List.map_cons, ← List.singleton_append (l := List.map _ _), List.count_append,
        Nat.add_comm, List.map_nil, List.count_nil, Nat.zero_add]

theorem count_begun {ticket t : Nat} {x : Nat × Ask}
    (hfind : l.begun.find? (·.1 == ticket) = some x) :
    (l.begun.map (·.1)).count t =
      ((l.begun.eraseP (·.1 == ticket)).map (·.1)).count t + [ticket].count t := by
  obtain ⟨y, before, after, -, hy, hbegun, herased⟩ :=
    List.exists_of_eraseP (List.mem_of_find?_eq_some hfind) (List.find?_some hfind)
  obtain rfl : y.1 = ticket := eq_of_beq hy
  rw [herased, hbegun]
  simp only [List.map_append, List.map_cons, List.count_append, List.count_cons, List.count_nil]
  omega

theorem bring_settles {ticket t : Nat} {ask : Ask}
    (hfind : l.begun.find? (·.1 == ticket) = some (t, ask)) :
    Settles (.step now (.bring ticket)) l
      (bringAsk ticket ask { l with begun := l.begun.eraseP (·.1 == ticket) }) := by
  intro t
  have hbegun := count_begun (t := t) hfind
  cases ask with
  | event e =>
      have hbring := Intake.count_bring ticket t e l.events
      have hsettling : l.settling (.step now (.bring ticket)) =
          (l.events.accepting ticket e).map (·.1) := by
        rw [settling, arriving_bring hfind, arriving_bring hfind]
        exact List.append_nil _
      rw [hsettling]
      simp only [bringAsk, outstanding_settleCall, asked, List.count_append, List.count_nil]
      simp only [outstanding, List.count_append]
      change _ + (_ + (_ + (_ + l.turnedDown.count t)) + _) = _
      omega
  | command c =>
      have hbring := Intake.count_bring ticket t c l.commands
      have hsettling : l.settling (.step now (.bring ticket)) =
          (l.commands.accepting ticket c).map (·.1) := by
        rw [settling, arriving_bring hfind, arriving_bring hfind]
        rfl
      rw [hsettling]
      simp only [bringAsk, outstanding_settleCall, asked, List.count_append, List.count_nil]
      simp only [outstanding, List.count_append]
      change _ + (_ + (_ + (_ + l.turnedDown.count t)) + _) = _
      omega

theorem Around.settles (haround : Around l a l') : Settles (.step now a) l l' := by
  cases haround with
  | @callRefused ticket =>
      intro t
      rw [outstanding_answer, if_pos rfl, List.count_append]
      change 0 + _ = _ + [ticket].count t
      omega
  | @call ticket ask =>
      intro t
      have hbegun : ((l.begun ++ [(ticket, ask)]).map (·.1)).count t =
          (l.begun.map (·.1)).count t + [ticket].count t := by
        rw [List.map_append, List.count_append]
        rfl
      simp only [outstanding, List.count_append, hbegun]
      change 0 + (_ + (_ + (_ + l.turnedDown.count t))) = _ + [ticket].count t
      omega
  | bring hfind => exact bring_settles hfind
  | serveEvent hserve =>
      intro t
      have hcount := count_serve (t := t) hserve
      have hsettling : l.settling (.step now .serveEvent) = l.events.admitting.map (·.1) :=
        List.append_nil _
      rw [hsettling]
      simp only [asked, outstanding_answer, List.count_append, List.count_nil]
      simp only [outstanding, List.count_append]
      change _ + (_ + (_ + (_ + l.turnedDown.count t)) + _) = _
      omega
  | serveCommand hserve =>
      intro t
      have hcount := count_serve (t := t) hserve
      have hsettling : l.settling (.step now .serveCommand) = l.commands.admitting.map (·.1) :=
        rfl
      rw [hsettling]
      simp only [asked, outstanding_answer, List.count_append, List.count_nil]
      simp only [outstanding, List.count_append]
      change _ + (_ + (_ + (_ + l.turnedDown.count t)) + _) = _
      omega
  | requestRefused | request | requestLetIn | requestDismissed | serveMessage | addEventSender
  | dropEventSender | dropCommandSender | dropRequestSender | stop => exact .of_eq rfl rfl rfl

theorem outstanding_checkOver : l.checkOver.outstanding = l.outstanding := by
  unfold checkOver
  split
  · rfl
  · rfl

theorem outstanding_register (socket : Nat) :
    (l.register socket).outstanding = l.outstanding := by
  unfold register
  split
  · rfl
  · rfl

theorem Turn.settles (hturn : Turn now l a l') : Settles (.step now a) l l' := by
  cases hturn with
  | quits | message => exact .of_eq rfl rfl rfl
  | @event e events _ htake =>
      refine .of_eq ?_ rfl rfl
      change l.begun.map (·.1) ++ (events.line.map (·.1) ++ _) = _
      rw [Intake.line_of_take htake]
      rfl
  | @command c commands _ htake =>
      refine .of_eq ?_ rfl rfl
      change l.begun.map (·.1) ++ (_ ++ (commands.line.map (·.1) ++ _)) = _
      rw [Intake.line_of_take htake]
      rfl
  | noEvent | noCommand | noRequest => exact .of_eq outstanding_checkOver rfl rfl
  | request => exact .of_eq (outstanding_register _) rfl rfl

theorem happen_settles (hhappen : l.happen h = some l') : Settles h l l' := by
  cases h with
  | step now a =>
      rcases step_cases hhappen with ⟨o, s, _, rfl, -, -, rfl⟩ | ⟨-, hturn⟩ | haround
      · cases o <;> exact .of_eq rfl rfl rfl
      · exact hturn.settles
      · exact haround.settles
  | takeInbox | dropInbox | stopClient | bring | leave | dropMessageSender | note =>
      cases hhappen
      exact .of_eq rfl rfl rfl

/-- Of the calls that are made, each comes to its intake once, or is outstanding. -/
theorem run_settles {start : EventLoop} {hs : List Happening} (hnone : start.outstanding = [])
    (hrun : start.run hs = some l) (t : Nat) :
    ((arrivals .events hs start).map (·.1)).count t +
        ((arrivals .commands hs start).map (·.1)).count t + l.outstanding.count t =
      (called hs).count t := by
  refine Steps.run_induction (P := fun hs l =>
    ((arrivals .events hs start).map (·.1)).count t +
        ((arrivals .commands hs start).map (·.1)).count t + l.outstanding.count t =
      (called hs).count t) ?_ ?_ hrun
  · rw [hnone]
    rfl
  · intro hs h l l' hrun ih hhappen
    have harrivals : ∀ s, ((arrivals s (hs ++ [h]) start).map (·.1)).count t =
        ((arrivals s hs start).map (·.1)).count t + ((l.arriving s h).map (·.1)).count t := by
      intro s
      rw [arrivals, Steps.seen_concat hrun hhappen, List.map_append, List.count_append]
    have hcalled : (called (hs ++ [h])).count t = (called hs).count t + (asked h).count t := by
      rw [called, List.flatMap_append, List.count_append, List.flatMap_singleton, ← called]
    have hsettles := happen_settles hhappen t
    rw [settling, List.count_append] at hsettles
    rw [harrivals, harrivals, hcalled]
    omega

/-- A call that has been turned down is not among those whose events have come to the intake,
unless its ticket is used twice. -/
theorem not_mem_arrivals {start : EventLoop} {hs : List Happening} {ticket : Nat}
    (hnone : start.outstanding = []) (hrun : start.run hs = some l)
    (honce : (called hs).count ticket ≤ 1) (hrefused : (ticket, some .stopped) ∈ l.answers)
    (e : Event) : (ticket, e) ∉ arrivals .events hs start := by
  intro hmem
  have harrived : ticket ∈ (arrivals .events hs start).map (·.1) := List.mem_map_of_mem hmem
  have houtstanding : ticket ∈ l.outstanding := by
    apply List.mem_append_right
    apply List.mem_append_right
    apply List.mem_append_right
    exact List.mem_map.mpr ⟨_, List.mem_filter.mpr ⟨hrefused, by simp⟩, rfl⟩
  have hsettles := run_settles hnone hrun ticket
  have hpos := List.count_pos_iff.mpr harrived
  have hpos' := List.count_pos_iff.mpr houtstanding
  omega

theorem stopping_of_mem {start : EventLoop} {hs : List Happening} (hrun : start.run hs = some l)
    (hstop : ∃ now, .step now .stop ∈ hs) : l.stopping = true := by
  revert hstop
  refine Steps.run_induction
    (P := fun hs l => (∃ now, .step now .stop ∈ hs) → l.stopping = true) ?_ ?_ hrun
  · rintro ⟨now, hmem⟩
    cases hmem
  · rintro hs h l l' - ih hhappen ⟨now, hmem⟩
    rcases List.mem_append.mp hmem with hmem | hmem
    · exact (happen_retains hhappen).stopping (ih ⟨now, hmem⟩)
    · obtain rfl := List.mem_singleton.mp hmem
      rcases step_cases hhappen with ⟨_, _, _, ha, -⟩ | ⟨-, hturn⟩ | haround
      · cases ha
      · cases hturn
      · cases haround
        rfl

end EventLoop

end HookRelay
