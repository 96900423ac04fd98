import HookRelay.Proofs.Connection.Reading

namespace HookRelay

namespace Intake

variable {α : Type} {i : Intake α}

/-- An open intake that can hold something. -/
structure IsOpen (i : Intake α) : Prop where
  listening : i.queue.isListening = true
  capacity : 0 < i.queue.capacity

/-- An open intake in which nothing waits, neither inside nor in line. -/
structure IsIdle (i : Intake α) : Prop extends IsOpen i where
  items : i.queue.items = []
  line : i.line = []

theorem take_cons {a : α} {rest : List α} (hitems : i.queue.items = a :: rest) :
    i.take.2 = { i with queue := { i.queue with items := rest } } := by
  simp only [take, Mailbox.take, hitems]

theorem IsOpen.letIn_cons {t : Nat} {a : α} {line : List (Nat × α)} (h : i.IsOpen)
    (hitems : i.queue.items = []) (hline : i.line = (t, a) :: line) :
    i.letIn = some (t, { queue := { i.queue with items := [a] }, line }) := by
  have hroom : i.queue.hasRoom = true := by
    rw [Mailbox.hasRoom, hitems]
    exact decide_eq_true h.capacity
  simp [letIn, hline, h.listening, hroom, Mailbox.offer, hitems]

theorem IsIdle.bring (h : i.IsIdle) (ticket : Nat) (a : α) :
    i.bring ticket a = (.accepted, { i with queue := { i.queue with items := [a] } }) := by
  have hroom : i.queue.hasRoom = true := by
    rw [Mailbox.hasRoom, h.items]
    exact decide_eq_true h.capacity
  simp [Intake.bring, h.line, h.listening, hroom, Mailbox.offer, h.items]

theorem IsIdle.not_isWaiting (h : i.IsIdle) (ticket : Nat) : i.isWaiting ticket = false := by
  rw [isWaiting, h.line]
  rfl

end Intake

namespace Connection

open Wire

/-- What a reader does that nothing interrupts, and what is done at the intake for those who
bring messages there. -/
def isServing : Happening → Bool
  | .around .take | .around .letIn => true
  | .step _ (.reader step) => !step.isInterruption
  | _ => false

variable {limits : Limits} {now : Nat} {c : Connection} {l : Link} {x : Connection × Link}

theorem exists_emptied (limits : Limits) (c : Connection) (l : Link) :
    ∃ more, more.all isServing = true ∧ run limits more (c, l) =
      some (c, { l with intake :=
        { l.intake with queue := { l.intake.queue with items := [] } } }) := by
  generalize hitems : l.intake.queue.items = items
  induction items generalizing l with
  | nil =>
      refine ⟨[], rfl, ?_⟩
      rw [← hitems]
      rfl
  | cons a rest ih =>
      obtain ⟨more, hmore, hrun⟩ := ih { l with intake := l.intake.take.2 } (by
        rw [Intake.take_cons hitems])
      refine ⟨.around .take :: more, by rw [List.all_cons, hmore]; rfl, ?_⟩
      refine (Steps.run_append (Steps.run_singleton rfl)).trans (hrun.trans ?_)
      rw [Intake.take_cons hitems]

/-- All who wait at an open intake can be let in. -/
theorem exists_drained (limits : Limits) (c : Connection) (l : Link) (hopen : l.intake.IsOpen) :
    ∃ more intake, more.all isServing = true ∧
      run limits more (c, l) = some (c, { l with intake }) ∧ intake.IsIdle := by
  generalize hline : l.intake.line = line
  induction line generalizing l with
  | nil =>
      obtain ⟨more, hmore, hrun⟩ := exists_emptied limits c l
      exact ⟨more, _, hmore, hrun, ⟨hopen.listening, hopen.capacity⟩, rfl, hline⟩
  | cons p line ih =>
      obtain ⟨t, a⟩ := p
      obtain ⟨more, hmore, hrun⟩ := exists_emptied limits c l
      let emptied : Intake Message :=
        { l.intake with queue := { l.intake.queue with items := [] } }
      have hemptied : emptied.IsOpen := ⟨hopen.listening, hopen.capacity⟩
      have hletIn := hemptied.letIn_cons rfl hline
      obtain ⟨more', intake, hmore', hrun', hidle⟩ :=
        ih { l with intake := { queue := { emptied.queue with items := [a] }, line } }
          ⟨hopen.listening, hopen.capacity⟩ rfl
      have hstep : happen limits (.around .letIn) (c, { l with intake := emptied }) =
          some (c, { l with
            intake := { queue := { emptied.queue with items := [a] }, line } }) := by
        simp only [happen, outside, hletIn, Option.map_some]
      refine ⟨more ++ .around .letIn :: more', intake, ?_, ?_, hidle⟩
      · rw [List.all_append, List.all_cons, hmore, hmore']
        rfl
      · refine (Steps.run_append hrun).trans ?_
        exact (Steps.run_append (Steps.run_singleton hstep)).trans hrun'

/-- How far a reader is from having nothing to do. -/
def stage : Reader → Nat
  | .ended => 0
  | .reading _ => 1
  | .offering _ | .waiting => 2

def remaining (c : Connection) (l : Link) : Nat :=
  2 * l.socket.inbound.left.length + stage c.reader

theorem length_left_take (s : Stream) (n : Nat) : (s.take n).left.length = s.left.length - n := by
  rw [Stream.left, Stream.left, List.length_drop, List.length_drop]
  exact (Nat.sub_sub _ _ _).symm

theorem stage_le (r : Reader) : stage r ≤ 2 := by
  cases r <;> simp [stage]

/-- What the reader's steps leave as it is. -/
structure Carried (l l' : Link) : Prop where
  bytes : l'.socket.inbound.bytes = l.socket.inbound.bytes
  isOpen : l'.intake.IsOpen

theorem length_left_hear {due : Nat} {payload rest : List UInt8} (r : Reader)
    (hreading : c.reader = .reading due)
    (hscan : scan limits.maxFrameLen l.socket.inbound.left = .frame payload rest) :
    2 * (l.socket.inbound.take (payload.length + 2)).left.length + stage r < remaining c l := by
  have hlength := length_of_scan_frame hscan
  have hstage := stage_le r
  rw [length_left_take, remaining, hreading, stage]
  omega

theorem stepReader_remaining {step : ReaderStep} (hidle : l.intake.IsIdle)
    (hstep : stepReader limits now step c l = some x) (hcalm : step.isInterruption = false) :
    remaining x.1 x.2 < remaining c l ∧ Carried l x.2 := by
  have hopen := hidle.toIsOpen
  cases readerTurn_of_step hstep with
  | stops | expires | breaks => cases hcalm
  | undecodable hreading hscan =>
      exact ⟨length_left_hear .ended hreading hscan, rfl, hopen.listening, hopen.capacity⟩
  | pong hreading hscan | hears hreading hscan =>
      exact ⟨length_left_hear _ hreading hscan, rfl, hopen⟩
  | oversized hreading =>
      refine ⟨?_, rfl, hopen.listening, hopen.capacity⟩
      change 2 * (l.socket.inbound.take 2).left.length + 0 < _
      rw [length_left_take, remaining, hreading, stage]
      omega
  | streamEnds hreading =>
      refine ⟨?_, rfl, hopen.listening, hopen.capacity⟩
      rw [remaining, remaining, hreading]
      exact Nat.lt_succ_self _
  | putsIn hoffering hbring =>
      rw [hidle.bring] at hbring
      cases hbring
      refine ⟨?_, rfl, hopen.listening, hopen.capacity⟩
      rw [remaining, remaining, hoffering]
      exact Nat.lt_succ_self _
  | standsInLine _ hbring | refused _ hbring =>
      rw [hidle.bring] at hbring
      cases hbring
  | resumes hwaiting =>
      refine ⟨?_, rfl, hopen⟩
      rw [remaining, remaining, hwaiting]
      exact Nat.lt_succ_self _
  | losesPlace _ hline =>
      rw [hidle.not_isWaiting] at hline
      cases hline

/-- At an open intake that is served, the reader gets to a point at which it has nothing to
do, and nothing waits at the intake. -/
theorem exists_settled (limits : Limits) (c : Connection) (l : Link) (hopen : l.intake.IsOpen) :
    ∃ more c' l', more.all isServing = true ∧ run limits more (c, l) = some (c', l') ∧
      l'.socket.inbound.bytes = l.socket.inbound.bytes ∧ l'.intake.IsIdle ∧
      ∀ now step, step.isInterruption = false → stepReader limits now step c' l' = none := by
  -- Before each of the reader's steps the intake is emptied, so what the reader brings is
  -- accepted and each step leaves less to do.
  induction hn : remaining c l using Nat.strongRecOn generalizing c l with
  | ind n ih =>
    obtain ⟨more, intake, hmore, hrun, hidle⟩ := exists_drained limits c l hopen
    by_cases hstuck : ∀ now step, step.isInterruption = false →
        stepReader limits now step c { l with intake } = none
    · exact ⟨more, c, _, hmore, hrun, rfl, hidle, hstuck⟩
    · simp only [not_forall] at hstuck
      obtain ⟨now, step, hcalm, hsome⟩ := hstuck
      obtain ⟨⟨c₁, l₁⟩, hstep⟩ := Option.ne_none_iff_exists'.mp hsome
      obtain ⟨hless, hcarried⟩ := stepReader_remaining hidle hstep hcalm
      obtain ⟨more', c', l', hmore', hrun', hbytes, hidle', hstuck'⟩ :=
        ih _ (hn ▸ hless) c₁ l₁ hcarried.isOpen rfl
      have hhappen : happen limits (.step now (.reader step)) (c, { l with intake }) =
          some (c₁, l₁) := hstep
      refine ⟨more ++ .step now (.reader step) :: more', c', l', ?_, ?_,
        hbytes.trans hcarried.bytes, hidle', hstuck'⟩
      · rw [List.all_append, List.all_cons, hmore, hmore', isServing, hcalm]
        rfl
      · refine (Steps.run_append hrun).trans ?_
        exact (Steps.run_append (Steps.run_singleton hhappen)).trans hrun'

theorem not_isInterruption_of_isServing {h : Happening} (hserving : isServing h = true) :
    h.isInterruption = false := by
  cases h with
  | step now a =>
      cases a with
      | reader step => exact (Bool.not_eq_true' _).mp hserving
      | writer | coordinator => rfl
  | around => rfl

/-- The messages that a connection's reader puts into the intake are the first ones of the
client's stream, without the answers to heartbeats, and no byte behind a bad frame is looked
at. If nothing interrupts the reader and the intake stays open, the reader has passed all of
them on as soon as it can do nothing more and has nothing in line; and it gets there if the
intake is served. -/
theorem stream_passed_on {id : UInt64} {ticket start : Nat} {link : Link} {hs : List Happening}
    (htaken : link.socket.inbound.taken = 0) (hwaiting : link.intake.isWaiting ticket = false)
    (hrun : run limits hs (Connection.start limits id ticket start, link) = some (c, l)) :
    let whole := passed (cut limits.maxFrameLen l.socket.inbound.bytes).1
    puts limits hs (Connection.start limits id ticket start, link) <+: whole ∧
      l.socket.inbound.taken ≤ (cut limits.maxFrameLen l.socket.inbound.bytes).2 ∧
      (Calm hs l → l.intake.isWaiting c.ticket = false →
        (∀ now step, step.isInterruption = false → stepReader limits now step c l = none) →
        puts limits hs (Connection.start limits id ticket start, link) = whole) ∧
      (Calm hs l → 0 < l.intake.queue.capacity →
        ∃ more c' l', more.all isServing = true ∧ run limits more (c, l) = some (c', l') ∧
          l'.socket.inbound.bytes = l.socket.inbound.bytes ∧
          puts limits (hs ++ more) (Connection.start limits id ticket start, link) = whole) := by
  intro whole
  have hstart : ∀ calm, Hears limits.maxFrameLen calm []
      (Connection.start limits id ticket start).reader link.socket.inbound
      (ownLine (Connection.start limits id ticket start) link) :=
    fun _ => start_hears htaken hwaiting
  have hhears := run_hears hstart hrun
  refine ⟨hhears.front, hhears.taken, hhears.of_stuck, fun hcalm hcapacity => ?_⟩
  obtain ⟨more, c', l', hmore, hrun', hbytes, hidle, hstuck⟩ :=
    exists_settled limits c l ⟨hcalm.2, hcapacity⟩
  have hcalm' : Calm (hs ++ more) l' := by
    refine ⟨?_, hidle.listening⟩
    rw [List.all_append, hcalm.1, Bool.true_and, List.all_eq_true]
    intro h hh
    rw [not_isInterruption_of_isServing (List.all_eq_true.mp hmore h hh)]
    rfl
  have hwhole : run limits (hs ++ more) (Connection.start limits id ticket start, link) =
      some (c', l') := (Steps.run_append hrun).trans hrun'
  refine ⟨more, c', l', hmore, hrun', hbytes, ?_⟩
  rw [(run_hears hstart hwhole).of_stuck hcalm' (hidle.not_isWaiting _) hstuck, hbytes]

/-- Two lines and an answer to a heartbeat between them, in three pieces, and a length that is
too long behind them. The second line has to wait at the intake. -/
theorem stream_passed_on_past_full_intake :
    let limits := Settings.default.limits
    let a : Message := ⟨"message", none, 1⟩
    let b : Message := ⟨"message", none, 2⟩
    let pong : Message := ⟨"pong", none, 0⟩
    let frame (m : Message) := (encodeFrame m limits.maxFrameLen).toOption.getD []
    let link : Link :=
      { socket := { window := 100 }, inbox := { capacity := 1 },
        intake := { queue := { capacity := 1 } } }
    let s := (Connection.start limits 0 0 0, link)
    let hs : List Happening := [.around (.send ((frame a).take 3)),
      .around (.send ((frame a).drop 3 ++ frame pong)), .step 1 (.reader .read),
      .step 1 (.reader .offer), .step 1 (.reader .read),
      .around (.send (frame b ++ [255, 255, 7])), .step 2 (.reader .read),
      .step 2 (.reader .offer), .around .take, .around .letIn, .step 3 (.reader .resume),
      .step 3 (.reader .read)]
    ∃ c l, run limits hs s = some (c, l) ∧ Calm hs l ∧
      (∀ now step, step.isInterruption = false → stepReader limits now step c l = none) ∧
      l.socket.inbound.bytes = frame a ++ frame pong ++ frame b ++ [255, 255, 7] ∧
      puts limits hs s = passed (cut limits.maxFrameLen l.socket.inbound.bytes).1 ∧
      puts limits hs s = [a, b] ∧
      l.socket.inbound.taken ≤ (cut limits.maxFrameLen l.socket.inbound.bytes).2 := by
  intro limits a b pong frame link s hs
  have hruns : (run limits hs s).any fun x => x.1.reader = .ended ∧
      x.2.intake.queue.isListening = true ∧ x.2.intake.isWaiting x.1.ticket = false ∧
      x.2.socket.inbound.bytes = frame a ++ frame pong ++ frame b ++ [255, 255, 7] := by
    decide +kernel
  have hputs : puts limits hs s = [a, b] := by decide +kernel
  obtain ⟨⟨c, l⟩, hrun, hl⟩ := (Option.any_eq_true _ _).mp hruns
  obtain ⟨hended, hlistening, hline, hbytes⟩ := of_decide_eq_true hl
  have hcalm : Calm hs l := ⟨by decide, hlistening⟩
  have hstuck : ∀ now step, step.isInterruption = false →
      stepReader limits now step c l = none := by
    intro now step _
    change c.reader = .ended at hended
    cases step <;> simp [stepReader, hended]
  obtain ⟨-, htaken, hwhole, -⟩ := stream_passed_on (by rfl) (by rfl) hrun
  exact ⟨c, l, hrun, hcalm, hstuck, hbytes, hwhole hcalm hline hstuck, hputs, htaken⟩

end Connection

end HookRelay
