import HookRelay.Proofs.Connection.Surroundings
import HookRelay.Proofs.Connection.Turns
/-!
How a connection is torn down. A half that ends has either cancelled the stop signal or
left its error with the coordinator, which cancels the signal when it ends; so none of the
three tasks is left behind.
-/

namespace HookRelay.Connection

def hasEnded (half : Half) (c : Connection) : Bool :=
  match half with
  | .writer => c.writer = .ended
  | .reader => c.reader = .ended

/-- How many of the two halves have not ended. -/
def running (c : Connection) : Nat :=
  (if c.hasEnded .writer then 0 else 1) + if c.hasEnded .reader then 0 else 1

def Action.half? : Action → Option Half
  | .writer _ => some .writer
  | .reader _ => some .reader
  | .coordinator _ => none

def Action.isBreakDown : Action → Bool
  | .writer (.breakDown _) | .reader (.breakDown _) => true
  | _ => false

/-- The errors that come to the coordinator at a step, each with the half that posts it. -/
def posting (limits : Limits) (h : Happening) (s : Connection × Link) :
    List (Half × ConnectionError) :=
  match h with
  | .step now a =>
    match a.half?, step limits now a s.1 s.2 with
    | some half, some (c', _) =>
      (c'.errors.items.drop s.1.errors.items.length).map (half, ·)
    | _, _ => []
  | .around _ => []

def posted (limits : Limits) : List Happening → Connection × Link →
    List (Half × ConnectionError) :=
  Steps.seen (happen limits) (posting limits)

/-- All that a step can do to the tasks of a connection and to its stop signal. -/
inductive Outcome (c : Connection) (l : Link) : Option Half → Connection → Link → Prop
  | carriesOn {half : Option Half} {c' : Connection} {l' : Link} :
      (∀ h, c'.hasEnded h = c.hasEnded h) → c'.errors = c.errors →
      c'.coordinating = c.coordinating → l'.stopped = l.stopped → Outcome c l half c' l'
  | ends {half : Half} {c' : Connection} {l' : Link} (e : Option ConnectionError) :
      c.hasEnded half = false → (∀ h, c'.hasEnded h = (h = half || c.hasEnded h)) →
      c'.errors = (c.post e).errors → c'.coordinating = c.coordinating →
      (l.stopped = true ∨ e = none → l'.stopped = true) → Outcome c l (some half) c' l'
  | concludes {c' : Connection} {l' : Link} :
      (∀ h, c'.hasEnded h = c.hasEnded h) → c'.errors = c.errors.dropReceiver →
      c'.coordinating = false → l'.stopped = true → Outcome c l none c' l'

variable {limits : Limits} {now : Nat} {a : Action} {c c' : Connection} {l l' : Link}
  {x : Connection × Link}

theorem endWriter_outcome (e : Option ConnectionError) (hwriter : c.writer ≠ .ended)
    (hstopped : l.stopped = true ∨ e = none → l'.stopped = true) :
    Outcome c l (some .writer) (endWriter e c l').1 (endWriter e c l').2 := by
  refine .ends e (by simpa [hasEnded] using hwriter) ?_ rfl rfl hstopped
  intro h
  cases h <;> rfl

theorem endReader_outcome (e : Option ConnectionError) (hreader : c.reader ≠ .ended)
    (hstopped : l.stopped = true ∨ e = none → l'.stopped = true) :
    Outcome c l (some .reader) (endReader e c l').1 (endReader e c l').2 := by
  refine .ends e (by simpa [hasEnded] using hreader) ?_ rfl rfl hstopped
  intro h
  cases h <;> rfl

theorem breakWriter_outcome (f : Fault) (hwriter : c.writer ≠ .ended) :
    Outcome c l (some .writer) (breakWriter f c l).1 (breakWriter f c l).2 :=
  endWriter_outcome _ hwriter fun h => h.resolve_right nofun

theorem writer_carriesOn {w : Writer} (hw : w ≠ .ended) (hwriter : c.writer ≠ .ended)
    (hstopped : l'.stopped = l.stopped) :
    Outcome c l (some .writer) { c with writer := w } l' := by
  refine .carriesOn ?_ rfl rfl hstopped
  intro h
  cases h with
  | writer => simp [hasEnded, hw, hwriter]
  | reader => rfl

theorem beginFrame_outcome {m : Message} {beat : Nat} (hwriter : c.writer ≠ .ended)
    (hstopped : l'.stopped = l.stopped) :
    Outcome c l (some .writer) (beginFrame limits now beat m c l').1
      (beginFrame limits now beat m c l').2 := by
  rw [beginFrame]
  split
  · exact endWriter_outcome _ hwriter fun h => hstopped.trans (h.resolve_right nofun)
  · exact writer_carriesOn nofun hwriter hstopped

theorem stepWriter_outcome {s : WriterStep} (h : stepWriter limits now s c l = some x) :
    Outcome c l (some .writer) x.1 x.2 := by
  have hturn := writerTurn_of_step h
  have hwriter := hturn.running
  cases hturn with
  | failsToStart f => exact breakWriter_outcome f hwriter
  | starts => exact writer_carriesOn nofun hwriter rfl
  | stops _ hstopped => exact endWriter_outcome none hwriter fun _ => hstopped
  | takes | beats => exact beginFrame_outcome hwriter rfl
  | forgotten => exact endWriter_outcome none hwriter fun _ => rfl
  | puts =>
      refine writer_carriesOn ?_ hwriter rfl
      split <;> nofun
  | losesClient | expires => exact endWriter_outcome _ hwriter fun h => h.resolve_right nofun
  | breaks => exact breakWriter_outcome _ hwriter

theorem reader_carriesOn {r : Reader} (hr : r ≠ .ended) (hreader : c.reader ≠ .ended)
    (hstopped : l'.stopped = l.stopped) :
    Outcome c l (some .reader) { c with reader := r } l' := by
  refine .carriesOn ?_ rfl rfl hstopped
  intro h
  cases h with
  | writer => rfl
  | reader => simp [hasEnded, hr, hreader]

theorem failReader_outcome (e : ConnectionError) (hreader : c.reader ≠ .ended)
    (hstopped : l'.stopped = l.stopped) :
    Outcome c l (some .reader) (endReader (some e) c l').1 (endReader (some e) c l').2 :=
  endReader_outcome _ hreader fun h => hstopped.trans (h.resolve_right nofun)

theorem stepReader_outcome {s : ReaderStep} (h : stepReader limits now s c l = some x) :
    Outcome c l (some .reader) x.1 x.2 := by
  have hturn := readerTurn_of_step h
  have hreader := hturn.running
  cases hturn with
  | stops _ hstopped => exact endReader_outcome none hreader fun _ => hstopped
  | pong | hears | putsIn | standsInLine | resumes => exact reader_carriesOn nofun hreader rfl
  | undecodable | oversized | streamEnds | expires | breaks =>
      exact failReader_outcome _ hreader rfl
  | refused | losesPlace => exact endReader_outcome none hreader fun _ => rfl

theorem conclude_outcome (entries : List LogEntry) :
    Outcome c l none (conclude entries c l).1 (conclude entries c l).2 := by
  refine .concludes ?_ rfl rfl rfl
  intro h
  cases h <;> rfl

theorem stepCoordinator_outcome {s : CoordinatorStep} (h : stepCoordinator s c l = some x) :
    Outcome c l none x.1 x.2 := by
  unfold stepCoordinator at h
  repeat' split at h
  all_goals cases h
  all_goals exact conclude_outcome _

theorem step_outcome (h : step limits now a c l = some x) : Outcome c l a.half? x.1 x.2 := by
  cases a with
  | writer s => exact stepWriter_outcome h
  | reader s => exact stepReader_outcome h
  | coordinator s => exact stepCoordinator_outcome h

/-- Whoever has ended has cancelled the stop signal or is among those whose errors have
come to the coordinator. A coordinator that still waits has all these errors, and room for
one more from each half that has not ended. -/
structure Accounted (errors : List (Half × ConnectionError)) (c : Connection) (l : Link) :
    Prop where
  concluded : c.coordinating = false → l.stopped = true
  ended : ∀ h, c.hasEnded h = true → l.stopped = true ∨ ∃ e, (h, e) ∈ errors
  items : c.coordinating = true → c.errors.items = errors.map (·.2)
  listening : c.coordinating = true → c.errors.receiver = .listening
  room : c.coordinating = true → errors.length + c.running ≤ c.errors.capacity

namespace Accounted

variable {errors : List (Half × ConnectionError)} {half : Half}

theorem start (limits : Limits) (id : UInt64) (ticket now : Nat) :
    Accounted [] (Connection.start limits id ticket now) l where
  concluded := nofun
  ended h hended := by cases h <;> cases hended
  items _ := rfl
  listening _ := rfl
  room _ := Nat.le_refl 2

theorem running_pos (h : c.hasEnded half = false) : 0 < c.running := by
  cases half with
  | writer => simp only [running, h]; exact Nat.lt_of_lt_of_le Nat.one_pos (Nat.le_add_right _ _)
  | reader => simp only [running, h]; exact Nat.succ_pos _

theorem offer (hc : Accounted errors c l) (hcoordinating : c.coordinating = true)
    (hrunning : c.hasEnded half = false) (e : ConnectionError) :
    c.errors.offer e = (.accepted, { c.errors with items := c.errors.items ++ [e] }) := by
  have hroom : c.errors.items.length < c.errors.capacity := by
    have hle := hc.room hcoordinating
    have hpos := running_pos hrunning
    rw [hc.items hcoordinating, List.length_map]
    omega
  simp [Mailbox.offer, Mailbox.isListening, Mailbox.hasRoom, hc.listening hcoordinating, hroom]

theorem carriesOn (hc : Accounted errors c l) (hended : ∀ h, c'.hasEnded h = c.hasEnded h)
    (herrors : c'.errors = c.errors) (hcoordinating : c'.coordinating = c.coordinating)
    (hstopped : l.stopped = true → l'.stopped = true) : Accounted errors c' l' where
  concluded h := hstopped (hc.concluded (hcoordinating ▸ h))
  ended h hh := (hc.ended h (hended h ▸ hh)).imp_left hstopped
  items h := by rw [herrors, hc.items (hcoordinating ▸ h)]
  listening h := by rw [herrors, hc.listening (hcoordinating ▸ h)]
  room h := by
    rw [herrors, running, hended, hended]
    exact hc.room (hcoordinating ▸ h)

theorem ends (hc : Accounted errors c l) {e : Option ConnectionError}
    (hrunning : c.hasEnded half = false)
    (hended : ∀ h, c'.hasEnded h = (h = half || c.hasEnded h))
    (herrors : c'.errors = (c.post e).errors) (hcoordinating : c'.coordinating = c.coordinating)
    (hstopped : l.stopped = true ∨ e = none → l'.stopped = true) :
    Accounted (errors ++ (c'.errors.items.drop c.errors.items.length).map (half, ·)) c' l' := by
  have hfewer : c'.running + 1 = c.running := by
    cases half with
    | writer => simp [running, hended, hrunning, Nat.add_comm]
    | reader => simp [running, hended, hrunning]
  cases hwaits : c.coordinating with
  | false =>
      -- Nobody waits for an error any more, but the signal is cancelled already.
      have hcancelled := hstopped (.inl (hc.concluded hwaits))
      rw [hwaits] at hcoordinating
      refine ⟨fun _ => hcancelled, fun _ _ => .inl hcancelled, ?_, ?_, ?_⟩ <;>
        (intro h; simp [hcoordinating] at h)
  | true =>
      have hroom := hc.room hwaits
      cases e with
      | none =>
          have hitems : c'.errors.items = c.errors.items := by rw [herrors]; rfl
          rw [hitems, List.drop_length, List.map_nil, List.append_nil]
          have hcancelled := hstopped (.inr rfl)
          refine ⟨fun _ => hcancelled, fun _ _ => .inl hcancelled, fun _ => ?_, fun _ => ?_,
            fun _ => ?_⟩
          · rw [hitems, hc.items hwaits]
          · rw [herrors]
            exact hc.listening hwaits
          · rw [herrors]
            change errors.length + c'.running ≤ c.errors.capacity
            omega
      | some e =>
          -- The half has had a slot of its own until now.
          have hposted : c'.errors =
              { c.errors with
                items := c.errors.items ++ [e]
                senders := c.errors.senders - 1 } := by
            rw [herrors, post, hc.offer hwaits hrunning]
            rfl
          rw [hposted, List.drop_left]
          refine ⟨fun h => ?_, fun h hh => ?_, fun _ => ?_, fun _ => ?_, fun _ => ?_⟩
          · simp [hcoordinating, hwaits] at h
          · rw [hended, Bool.or_eq_true, decide_eq_true_eq] at hh
            rcases hh with rfl | hh
            · exact .inr ⟨e, List.mem_append_right _ (List.mem_singleton_self _)⟩
            · rcases hc.ended h hh with hstop | ⟨e', he'⟩
              · exact .inl (hstopped (.inl hstop))
              · exact .inr ⟨e', List.mem_append_left _ he'⟩
          · rw [List.map_append, ← hc.items hwaits, hposted]
            rfl
          · rw [hposted]
            exact hc.listening hwaits
          · rw [hposted, List.length_append]
            change errors.length + 1 + c'.running ≤ c.errors.capacity
            omega

theorem of_concluded (hcoordinating : c'.coordinating = false)
    (hstopped : l'.stopped = true) : Accounted errors c' l' := by
  refine ⟨fun _ => hstopped, fun _ _ => .inl hstopped, ?_, ?_, ?_⟩ <;>
    (intro h; simp [hcoordinating] at h)

theorem happen {h : Happening} {s s' : Connection × Link} (hs : Accounted errors s.1 s.2)
    (hhappen : Connection.happen limits h s = some s') :
    Accounted (errors ++ posting limits h s) s'.1 s'.2 := by
  cases h with
  | around o =>
      obtain ⟨l', houtside, rfl⟩ := Option.map_eq_some_iff.mp hhappen
      rw [posting, List.append_nil]
      exact hs.carriesOn (fun _ => rfl) rfl rfl fun h => stopped_outside h houtside
  | step now a =>
      have hposting : posting limits (.step now a) s =
          a.half?.elim [] fun half =>
            (s'.1.errors.items.drop s.1.errors.items.length).map (half, ·) := by
        rw [posting, show step limits now a s.1 s.2 = some s' from hhappen]
        cases a.half? <;> rfl
      rw [hposting]
      have houtcome := step_outcome hhappen
      revert houtcome
      generalize a.half? = half
      intro houtcome
      cases houtcome with
      | carriesOn hended herrors hcoordinating hstopped =>
          have hnone : half.elim [] (fun half =>
              (s'.1.errors.items.drop s.1.errors.items.length).map (half, ·)) = [] := by
            rw [herrors, List.drop_length]
            cases half <;> rfl
          rw [hnone, List.append_nil]
          exact hs.carriesOn hended herrors hcoordinating hstopped.trans
      | ends e hrunning hended herrors hcoordinating hstopped =>
          exact hs.ends hrunning hended herrors hcoordinating hstopped
      | concludes _ _ hcoordinating hstopped =>
          rw [Option.elim_none, List.append_nil]
          exact of_concluded hcoordinating hstopped

theorem run {hs : List Happening} {s : Connection × Link} {id : UInt64} {ticket now : Nat}
    (hrun : Connection.run limits hs (Connection.start limits id ticket now, l) = some s) :
    Accounted (posted limits hs (Connection.start limits id ticket now, l)) s.1 s.2 := by
  refine Steps.run_induction (P := fun hs s =>
    Accounted (posted limits hs (Connection.start limits id ticket now, l)) s.1 s.2) ?_ ?_ hrun
  · exact Accounted.start limits id ticket now
  · intro hs h s s' hrun ih hhappen
    rw [posted, Steps.seen_concat hrun hhappen]
    exact ih.happen hhappen

end Accounted

variable {errors : List (Half × ConnectionError)}

/-- A coordinator that cannot move has ended, if any of the three tasks has. -/
theorem concluded_of_stuck (hc : Accounted errors c l)
    (hstuck : ∀ s, stepCoordinator s c l = none)
    (hended : (∃ h, c.hasEnded h = true) ∨ c.coordinating = false) :
    c.coordinating = false := by
  by_contra hwaits
  rw [Bool.not_eq_false] at hwaits
  have hrunning : l.stopped ≠ true := by
    intro hstopped
    have hstop := hstuck .stop
    simp [stepCoordinator, hwaits, hstopped] at hstop
  have hempty : errors = [] := by
    have hhear := hstuck .hear
    have hitems := hc.items hwaits
    cases errors with
    | nil => rfl
    | cons e errors =>
        simp [stepCoordinator, hwaits, Mailbox.take, hitems] at hhear
  rcases hended with ⟨h, hh⟩ | hconcluded
  · rcases hc.ended h hh with hstopped | ⟨e, he⟩
    · exact hrunning hstopped
    · rw [hempty] at he
      cases he
  · simp [hwaits] at hconcluded

theorem writer_hasEnded_of_stuck
    (hstuck : ∀ later a, now ≤ later → a.isBreakDown = false →
      step limits later a c l = none) :
    c.hasEnded .writer = true := by
  rcases hwriter : c.writer with _ | beat | ⟨beat, left, due⟩ | _
  · have hstart := hstuck now (.writer .start) (Nat.le_refl _) rfl
    simp [step, stepWriter, hwriter] at hstart
  · have hbeat := hstuck (max now beat) (.writer .beat) (Nat.le_max_left _ _) rfl
    have hlate : ¬ max now beat < beat := Nat.not_lt.mpr (Nat.le_max_right _ _)
    simp only [step, stepWriter, hwriter, if_neg hlate, reduceCtorEq] at hbeat
  · -- A frame that cannot be written is given up at the latest when its time is over.
    have hexpire := hstuck (max now due) (.writer .expire) (Nat.le_max_left _ _) rfl
    have hlate : ¬ max now due < due := Nat.not_lt.mpr (Nat.le_max_right _ _)
    simp only [step, stepWriter, hwriter, if_neg hlate, reduceCtorEq] at hexpire
  · exact decide_eq_true hwriter

/-- Once the stop signal is cancelled, a half that cannot move, however long it waits, has
ended. -/
theorem hasEnded_of_stuck (hstopped : l.stopped = true)
    (hstuck : ∀ later a, now ≤ later → a.isBreakDown = false →
      step limits later a c l = none)
    (h : Half) : c.hasEnded h = true := by
  cases h with
  | writer => exact writer_hasEnded_of_stuck hstuck
  | reader =>
      by_contra hnot
      have hreader : c.reader ≠ .ended := by simpa [hasEnded] using hnot
      have hstop := hstuck now (.reader .stop) (Nat.le_refl _) rfl
      simp only [step, stepReader] at hstop
      split at hstop <;> simp_all

theorem isOver_of_stuck (hc : Accounted errors c l)
    (hstuck : ∀ later a, now ≤ later → a.isBreakDown = false →
      step limits later a c l = none)
    (hended : (∃ h, c.hasEnded h = true) ∨ c.coordinating = false) :
    c.isOver = true ∧ l.stopped = true := by
  have hconcluded := concluded_of_stuck hc
    (fun s => hstuck now (.coordinator s) (Nat.le_refl _) rfl) hended
  have hstopped := hc.concluded hconcluded
  have hwriter : c.writer = .ended := of_decide_eq_true (hasEnded_of_stuck hstopped hstuck .writer)
  have hreader : c.reader = .ended := of_decide_eq_true (hasEnded_of_stuck hstopped hstuck .reader)
  refine ⟨?_, hstopped⟩
  simp [isOver, hwriter, hreader, hconcluded]

/-- No task of a connection outlives the others. A half that has ended has cancelled the stop
signal, or its error is with a coordinator that still waits; that error always finds room;
and the coordinator does not end before the signal is cancelled. Where no task can move any
more and one of the three has ended, all have. -/
theorem no_task_left_behind {id : UInt64} {ticket start : Nat} {link : Link} {hs : List Happening}
    (hrun : run limits hs (Connection.start limits id ticket start, link) = some (c, l)) :
    (∀ h, c.hasEnded h = true → l.stopped = true ∨ c.coordinating = true ∧
      ∃ e, (h, e) ∈ posted limits hs (Connection.start limits id ticket start, link) ∧
        e ∈ c.errors.items) ∧
      (c.coordinating = true → (∃ h, c.hasEnded h = false) →
        ∀ e, (c.errors.offer e).1 = .accepted) ∧
      (c.coordinating = false → l.stopped = true) ∧
      ∀ now, (∀ later a, now ≤ later → a.isBreakDown = false →
        step limits later a c l = none) →
        ((∃ h, c.hasEnded h = true) ∨ c.coordinating = false) →
        c.isOver = true ∧ l.stopped = true := by
  have haccounted : Accounted _ c l := Accounted.run hrun
  refine ⟨?_, ?_, haccounted.concluded, ?_⟩
  · intro h hended
    cases hwaits : c.coordinating with
    | false => exact .inl (haccounted.concluded hwaits)
    | true =>
        rcases haccounted.ended h hended with hstopped | ⟨e, he⟩
        · exact .inl hstopped
        · refine .inr ⟨rfl, e, he, ?_⟩
          rw [haccounted.items hwaits]
          exact List.mem_map_of_mem he
  · rintro hwaits ⟨h, hrunning⟩ e
    rw [haccounted.offer hwaits hrunning e]
  · intro now hstuck hended
    exact isOver_of_stuck haccounted hstuck hended

theorem step_of_isOver (hover : c.isOver = true) : step limits now a c l = none := by
  simp only [isOver, Bool.and_eq_true, decide_eq_true_eq, Bool.not_eq_true'] at hover
  obtain ⟨⟨hwriter, hreader⟩, hcoordinating⟩ := hover
  cases a with
  | writer s => cases s <;> simp [step, stepWriter, hwriter]
  | reader s => cases s <;> simp [step, stepReader, hreader]
  | coordinator s => simp [step, stepCoordinator, hcoordinating]

/-- A client sends a frame that is no message. -/
theorem no_task_left_behind_after_bad_frame :
    let limits := Settings.default.limits
    let link : Link :=
      { socket := { window := 100 }, inbox := { capacity := 1 },
        intake := { queue := { capacity := 1 } } }
    let s := (Connection.start limits 0 0 0, link)
    let failing : List Happening := [.around (.send [0, 1, 255]), .step 1 (.writer .start),
      .step 1 (.reader .read)]
    let ending : List Happening := [.step 2 (.coordinator .hear), .step 2 (.writer .stop)]
    ∃ c l c' l', run limits failing s = some (c, l) ∧ l.stopped = false ∧
      c.hasEnded .reader = true ∧
      (∃ e, (.reader, e) ∈ posted limits failing s ∧ e ∈ c.errors.items) ∧
      run limits (failing ++ ending) s = some (c', l') ∧
      (∀ later a, 2 ≤ later → a.isBreakDown = false → step limits later a c' l' = none) ∧
      c'.isOver = true ∧ l'.stopped = true := by
  intro limits link s failing ending
  have hfailed : (run limits failing s).any fun x =>
      x.2.stopped = false ∧ x.1.hasEnded .reader = true := by decide +kernel
  have hended : (run limits (failing ++ ending) s).any fun x =>
      x.1.isOver = true ∧ x.1.hasEnded .reader = true := by decide +kernel
  obtain ⟨⟨c, l⟩, hrun, hfailed⟩ := (Option.any_eq_true _ _).mp hfailed
  obtain ⟨⟨c', l'⟩, hrun', hended⟩ := (Option.any_eq_true _ _).mp hended
  obtain ⟨hstopped, hreader⟩ := of_decide_eq_true hfailed
  obtain ⟨hover, hreader'⟩ := of_decide_eq_true hended
  have hstuck : ∀ later a, 2 ≤ later → a.isBreakDown = false →
      step limits later a c' l' = none :=
    fun later a _ _ => step_of_isOver hover
  obtain ⟨hposted, -⟩ := no_task_left_behind hrun
  obtain ⟨-, -, -, htogether⟩ := no_task_left_behind hrun'
  have hwaiting := (hposted .reader hreader).resolve_left (Bool.eq_false_iff.mp hstopped)
  exact ⟨c, l, c', l', hrun, hstopped, hreader, hwaiting.2, hrun', hstuck,
    htogether 2 hstuck (.inl ⟨.reader, hreader'⟩)⟩

end HookRelay.Connection
