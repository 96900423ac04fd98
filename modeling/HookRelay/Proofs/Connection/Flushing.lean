import HookRelay.Proofs.Connection.Sending
import HookRelay.Proofs.Connection.Teardown

namespace HookRelay.Connection

open Wire

variable {limits : Limits} {now : Nat} {c c' : Connection} {l l' : Link} {x : Connection × Link}

theorem beginFrame_bytes {beat : Nat} {m : Message} :
    (beginFrame limits now beat m c l).2.socket.outbound.bytes = l.socket.outbound.bytes := by
  unfold beginFrame
  split
  · rfl
  · rfl

theorem beginFrame_stopped {beat : Nat} {m : Message} :
    (beginFrame limits now beat m c l).2.stopped = l.stopped := by
  unfold beginFrame
  split
  · rfl
  · rfl

theorem beginFrame_of_not_fits {beat : Nat} {m : Option Message} (h : fits limits m = false) :
    (beginFrame limits now beat (orPing m) c l).1.writer = .ended := by
  unfold beginFrame
  split
  · rfl
  · next frame hframe =>
    rw [fits_iff.mpr ⟨frame, hframe⟩] at h
    cases h

namespace WriterTurn

variable {w : WriterStep}

theorem bytes_of_ended (h : WriterTurn limits now c l w x) (hended : x.1.writer = .ended) :
    x.2.socket.outbound.bytes = l.socket.outbound.bytes := by
  cases h with
  | takes | beats => exact beginFrame_bytes
  | starts beat => cases hended
  | puts =>
      change (if _ then _ else _) = Writer.ended at hended
      split at hended
      · cases hended
      · cases hended
  | failsToStart | stops | forgotten | losesClient | expires | breaks => rfl

theorem ended_of_not_fits {m : Option Message} (h : WriterTurn limits now c l w x)
    (hturns : turnsTo w l = some m) (hfits : fits limits m = false) : x.1.writer = .ended := by
  cases h with
  | takes _ htake =>
      rw [turnsTo_take htake] at hturns
      cases hturns
      exact beginFrame_of_not_fits (m := some _) hfits
  | beats =>
      cases hturns
      exact beginFrame_of_not_fits (m := none) hfits
  | forgotten _ htake =>
      rw [turnsTo_disconnected htake] at hturns
      cases hturns
  | failsToStart | starts | stops | losesClient | puts | expires | breaks => cases hturns

/-- The writer cancels the stop signal only where it finds its queue closed and empty. -/
theorem cancels (h : WriterTurn limits now c l w x) (hrunning : l.stopped = false)
    (hstopped : x.2.stopped = true) :
    ∃ beat inbox, c.writer = .idle beat ∧ l.inbox.take = (.disconnected, inbox) := by
  have hchanged : x.2.stopped ≠ l.stopped := by simp [hrunning, hstopped]
  cases h with
  | forgotten hidle htake => exact ⟨_, _, hidle, htake⟩
  | takes | beats => exact absurd beginFrame_stopped hchanged
  | failsToStart | starts | stops | losesClient | puts | expires | breaks =>
      exact absurd rfl hchanged

end WriterTurn

theorem Accounted.concluding {errors : List (Half × ConnectionError)} {half : Half}
    (hc : Accounted errors c l) (hended : c.hasEnded half = true) :
    l.stopped = true ∨ ∃ x, stepCoordinator .hear c l = some x ∧ x.2.stopped = true := by
  cases hwaits : c.coordinating with
  | false => exact .inl (hc.concluded hwaits)
  | true =>
      rcases hc.ended half hended with hstopped | ⟨e, he⟩
      · exact .inl hstopped
      · right
        have hitems := hc.items hwaits
        cases errors with
        | nil => cases he
        | cons e' errors =>
            refine ⟨conclude [.connectionFailed c.id e'.2] c l, ?_, rfl⟩
            simp [stepCoordinator, hwaits, Mailbox.take, hitems]

/-- No byte is written any more, and the tasks come to their end. -/
structure HangsUp (limits : Limits) (c : Connection) (l : Link) : Prop where
  written : ∀ more s, run limits more (c, l) = some s →
    s.1.writer = .ended ∧ s.2.socket.outbound.bytes = l.socket.outbound.bytes
  concluding : ∀ more s, run limits more (c, l) = some s →
    s.2.stopped = true ∨ ∃ x, stepCoordinator .hear s.1 s.2 = some x ∧ x.2.stopped = true
  isOver : ∀ more s now, run limits more (c, l) = some s →
    (∀ later a, now ≤ later → a.isBreakDown = false →
      step limits later a s.1 s.2 = none) →
    s.1.isOver = true ∧ s.2.stopped = true

theorem hangsUp_of_ended {id : UInt64} {ticket start : Nat} {link : Link} {hs : List Happening}
    (hrun : run limits hs (Connection.start limits id ticket start, link) = some (c, l))
    (hended : c.writer = .ended) : HangsUp limits c l := by
  have haccounted : ∀ more s, run limits more (c, l) = some s →
      (∃ errors, Accounted errors s.1 s.2) ∧ s.1.hasEnded .writer = true := by
    intro more s hmore
    have hall : run limits (hs ++ more) (Connection.start limits id ticket start, link) = some s :=
      (Steps.run_append hrun).trans hmore
    exact ⟨⟨_, Accounted.run hall⟩, decide_eq_true (ended_run hended hmore).1⟩
  constructor
  · intro more s hmore
    exact ended_run hended hmore
  · intro more s hmore
    obtain ⟨⟨errors, herrors⟩, hwriter⟩ := haccounted more s hmore
    exact herrors.concluding hwriter
  · intro more s now hmore hstuck
    obtain ⟨⟨errors, herrors⟩, hwriter⟩ := haccounted more s hmore
    exact isOver_of_stuck herrors hstuck (.inl ⟨.writer, hwriter⟩)

/-- What a writer does to empty its queue, and what its client does meanwhile. -/
inductive IsFlushing (now : Nat) : Happening → Prop
  | receives : IsFlushing now (.around .receive)
  | takes : IsFlushing now (.step now (.writer .take))
  | puts (n : Nat) : IsFlushing now (.step now (.writer (.put n)))

theorem left_receive (s : Socket) : s.receive.outbound.left = [] := by
  apply List.drop_eq_nil_of_le
  change s.outbound.bytes.length ≤ s.outbound.taken + s.outbound.left.length
  rw [Stream.left, List.length_drop]
  omega

theorem room_receive (s : Socket) : s.receive.room = s.window := by
  rw [Socket.room, left_receive]
  exact Nat.sub_zero _

/-- A client that takes what comes gets the whole frame. -/
theorem exists_written (limits : Limits) (now : Nat) {beat due : Nat} {left : List UInt8}
    (hwriting : c.writer = .writing beat left due) (hclosed : l.socket.closed = false)
    (hwindow : 0 < l.socket.window) :
    ∃ socket : Socket,
      Steps.Reaches (happen limits) (IsFlushing now) (c, l)
        ({ c with writer := .idle beat }, { l with socket }) ∧
      socket.closed = false ∧ 0 < socket.window := by
  induction hlength : left.length using Nat.strongRecOn generalizing c l left with
  | ind n ih =>
    let window := l.socket.window
    let l₁ : Link := { l with socket := l.socket.receive }
    have hput : Connection.step limits now (.writer (.put window)) c l₁ =
        some (putBytes window beat due left c l₁) := by
      have hmin : min window l₁.socket.room = window := by
        rw [show l₁.socket.room = window from room_receive _, Nat.min_self]
      have hopen : ¬ l₁.socket.closed = true := by
        change ¬ l.socket.closed = true
        simp [hclosed]
      simp only [step, stepWriter, hwriting]
      rw [if_neg hopen, hmin, if_neg (Nat.pos_iff_ne_zero.mp hwindow)]
    have hreceived : Steps.Reaches (happen limits) (IsFlushing now) (c, l) (c, l₁) :=
      .single .receives rfl
    have hround : Steps.Reaches (happen limits) (IsFlushing now) (c, l)
        (putBytes window beat due left c l₁) :=
      hreceived.trans (.single (.puts window) hput)
    by_cases hempty : left.drop window = []
    · refine ⟨{ l₁.socket with outbound := l₁.socket.outbound.put (left.take window) }, ?_,
        hclosed, hwindow⟩
      simp only [putBytes, hempty] at hround
      exact hround
    · have hshorter : (left.drop window).length < n := by
        have hpos := List.length_pos_iff.mpr hempty
        rw [List.length_drop] at hpos ⊢
        omega
      have hwriting' : (putBytes window beat due left c l₁).1.writer =
          .writing beat (left.drop window) due := by
        simp [putBytes, hempty]
      obtain ⟨socket, hrest, hsocket⟩ := ih _ hshorter hwriting'
        (l := (putBytes window beat due left c l₁).2) hclosed hwindow rfl
      exact ⟨socket, hround.trans hrest, hsocket⟩

theorem exists_flushed_of_idle (limits : Limits) (now : Nat) {beat : Nat}
    (hidle : c.writer = .idle beat) (hsenders : l.inbox.senders = 0)
    (hclosed : l.socket.closed = false) (hwindow : 0 < l.socket.window)
    (hfits : ∀ m ∈ l.inbox.items, fits limits (some m) = true) :
    ∃ c' l' inbox, Steps.Reaches (happen limits) (IsFlushing now) (c, l) (c', l') ∧
      c'.writer = .idle beat ∧ l'.stopped = l.stopped ∧
      l'.inbox.take = (.disconnected, inbox) := by
  induction hitems : l.inbox.items generalizing c l with
  | nil =>
      refine ⟨c, l, l.inbox, .refl, hidle, rfl, ?_⟩
      simp [Mailbox.take, hitems, Mailbox.isOver, hsenders]
  | cons m items ih =>
      let l₁ : Link := { l with inbox := { l.inbox with items } }
      have htake : l.inbox.take = (.item m, l₁.inbox) := by
        rw [Mailbox.take, hitems]
      obtain ⟨frame, hframe⟩ := fits_iff.mp (hfits m (by rw [hitems]; exact List.mem_cons_self))
      let c₁ : Connection :=
        { c with writer := .writing beat frame (now + limits.timeout.nanos) }
      have htaken : Connection.step limits now (.writer .take) c l = some (c₁, l₁) := by
        simp only [step, stepWriter, hidle, htake, beginFrame]
        rw [show encodeFrame m limits.maxFrameLen = .ok frame from hframe]
      obtain ⟨socket, hwritten, hopen, hroom⟩ :=
        exists_written limits now (c := c₁) (l := l₁) rfl hclosed hwindow
      obtain ⟨c', l', inbox, hrest, hidle', hstopped, hover⟩ :=
        ih (c := { c₁ with writer := .idle beat }) (l := { l₁ with socket }) rfl hsenders hopen
          hroom (fun m' hm' => hfits m' (by rw [hitems]; exact List.mem_cons_of_mem m hm')) rfl
      refine ⟨c', l', inbox, ?_, hidle', hstopped, hover⟩
      have htakes : Steps.Reaches (happen limits) (IsFlushing now) (c, l) (c₁, l₁) :=
        .single .takes htaken
      exact htakes.trans (hwritten.trans hrest)

/-- The writer of a forgotten client gets to the end of the queue. -/
theorem exists_flushed (limits : Limits) (now : Nat) (hstarted : c.writer ≠ .starting)
    (hrunning : c.writer ≠ .ended) (hsenders : l.inbox.senders = 0)
    (hclosed : l.socket.closed = false) (hwindow : 0 < l.socket.window)
    (hfits : ∀ m ∈ l.inbox.items, fits limits (some m) = true) :
    ∃ c' l' beat inbox, Steps.Reaches (happen limits) (IsFlushing now) (c, l) (c', l') ∧
      c'.writer = .idle beat ∧ l'.stopped = l.stopped ∧
      l'.inbox.take = (.disconnected, inbox) := by
  cases hwriter : c.writer with
  | starting => exact absurd hwriter hstarted
  | ended => exact absurd hwriter hrunning
  | idle beat =>
      obtain ⟨c', l', inbox, hflushed⟩ :=
        exists_flushed_of_idle limits now hwriter hsenders hclosed hwindow hfits
      exact ⟨c', l', beat, inbox, hflushed⟩
  | writing beat left due =>
      obtain ⟨socket, hwritten, hopen, hroom⟩ :=
        exists_written limits now hwriter hclosed hwindow
      obtain ⟨c', l', inbox, hflushed, hidle⟩ :=
        exists_flushed_of_idle limits now (c := { c with writer := .idle beat })
          (l := { l with socket }) rfl hsenders hopen hroom hfits
      exact ⟨c', l', beat, inbox, hwritten.trans hflushed, hidle⟩

theorem queued_append_of_isFlushing {hs more : List Happening} {s s' : Connection × Link}
    (hrun : run limits hs s = some s') (hmore : ∀ h ∈ more, IsFlushing now h) :
    queued limits (hs ++ more) s = queued limits hs s := by
  have hsplit : queued limits (hs ++ more) s = queued limits hs s ++ queued limits more s' :=
    Steps.seen_append hrun
  have hnone : queued limits more s' = [] := by
    refine Steps.seen_eq_nil (P := fun _ => True) trivial ?_
    intro h hh s s' _ _
    cases hmore h hh with
    | receives | takes | puts => exact ⟨rfl, trivial⟩
  rw [hsplit, hnone, List.append_nil]

theorem ends_of_disconnected (limits : Limits) (now : Nat) {beat : Nat} {inbox : Mailbox Message}
    (hidle : c.writer = .idle beat) (hover : l.inbox.take = (.disconnected, inbox)) :
    happen limits (.step now (.writer .take)) (c, l) = some (endWriter none c l.stop) ∧
      beginning limits (.step now (.writer .take)) (c, l) = [] := by
  constructor
  · simp only [happen, step, stepWriter, hidle, hover]
  · rw [beginning, turnsTo_disconnected hover]
    rfl

/-- What has been written is the frames of heartbeats and of the queued messages, in the order
of the queue and none left out, but for what is still to be written of the last one. Once the
writer has ended nothing is added to it, and the other tasks follow. A message that does not fit
a frame adds nothing and ends the writer. A writer that ends before the stop signal is cancelled
has written the whole queue of a client that is forgotten, or posts its error; and if the client
takes what comes, it does get to the end of that queue. -/
theorem frames_sent {id : UInt64} {ticket start : Nat} {link : Link} {hs : List Happening}
    (hbytes : link.socket.outbound.bytes = []) (hlistening : link.inbox.receiver = .listening)
    (hrun : run limits hs (Connection.start limits id ticket start, link) = some (c, l)) :
    let s := (Connection.start limits id ticket start, link)
    let queue := link.inbox.items ++ queued limits hs s
    ((begun limits hs s).reduceOption <+: queue ∧
      (∀ m ∈ begun limits hs s, fits limits m = true) ∧
      ∃ left, Sent ((begun limits hs s).map orPing) l.socket.outbound.bytes left ∧
        (c.writer ≠ .ended → left = c.writer.left)) ∧
      (c.writer = .ended → HangsUp limits c l) ∧
      (∀ now w x m, step limits now (.writer w) c l = some x → turnsTo w l = some m →
        fits limits m = false →
        x.2.socket.outbound.bytes = l.socket.outbound.bytes ∧ HangsUp limits x.1 x.2) ∧
      (∀ now w x, step limits now (.writer w) c l = some x → x.1.writer = .ended →
        l.stopped = false →
        if x.2.stopped then
          l.inbox.senders = 0 ∧ (begun limits hs s).reduceOption = queue ∧
            Framed ((begun limits hs s).map orPing) x.2.socket.outbound.bytes
        else ∃ e, (.writer, e) ∈ posted limits (hs ++ [.step now (.writer w)]) s) ∧
      ∀ now, c.writer ≠ .starting → c.writer ≠ .ended → l.inbox.senders = 0 →
        l.stopped = false → l.socket.closed = false → 0 < l.socket.window →
        (∀ m ∈ l.inbox.items, fits limits (some m) = true) →
        ∃ more c' l', (∀ h ∈ more, IsFlushing now h) ∧
          run limits (hs ++ more) s = some (c', l') ∧
          c'.writer = .ended ∧ l'.stopped = true ∧
          (begun limits (hs ++ more) s).reduceOption = queue ∧
          Framed ((begun limits (hs ++ more) s).map orPing) l'.socket.outbound.bytes := by
  intro s queue
  have hsends : Sends limits queue (begun limits hs s) c l := Sends.run hbytes hlistening hrun
  have hconcat : ∀ {now w x}, step limits now (.writer w) c l = some x →
      run limits (hs ++ [.step now (.writer w)]) s = some x := fun hstep =>
    Steps.run_concat hrun hstep
  refine ⟨⟨hsends.front, hsends.fits, hsends.sent⟩, hangsUp_of_ended hrun, ?_, ?_, ?_⟩
  · intro now w x m hstep hturns hfits
    have hturn := writerTurn_of_step hstep
    have hended := hturn.ended_of_not_fits hturns hfits
    exact ⟨hturn.bytes_of_ended hended, hangsUp_of_ended (hconcat hstep) hended⟩
  · intro now w x hstep hended hrunning
    have hturn := writerTurn_of_step hstep
    split
    · next hstopped =>
      obtain ⟨beat, inbox, hidle, htake⟩ := hturn.cancels hrunning hstopped
      rw [hturn.bytes_of_ended hended]
      exact hsends.flushed hidle htake
    · next hstopped =>
      have haccounted := Accounted.run (hconcat hstep)
      exact (haccounted.ended .writer (decide_eq_true hended)).resolve_left hstopped
  · intro now hstarted hrunning hsenders hstopped hclosed hwindow hfits
    obtain ⟨c₁, l₁, beat, inbox, ⟨more, hmore, hflushed⟩, hidle, hstopped₁, hover⟩ :=
      exists_flushed limits now hstarted hrunning hsenders hclosed hwindow hfits
    have hrun₁ : run limits (hs ++ more) s = some (c₁, l₁) :=
      (Steps.run_append hrun).trans hflushed
    have hsends₁ : Sends limits queue (begun limits (hs ++ more) s) c₁ l₁ := by
      have hsends₁ := Sends.run hbytes hlistening hrun₁
      rwa [queued_append_of_isFlushing hrun hmore] at hsends₁
    -- Only the last step, at which the queue is found closed and empty, cancels the signal.
    obtain ⟨hlast, hnone⟩ := ends_of_disconnected limits now hidle hover
    have hbegun : begun limits (hs ++ more ++ [.step now (.writer .take)]) s =
        begun limits (hs ++ more) s := by
      rw [begun, Steps.seen_concat hrun₁ hlast, hnone, List.append_nil]
    obtain ⟨-, hall, hframed⟩ := hsends₁.flushed hidle hover
    refine ⟨more ++ [.step now (.writer .take)], (endWriter none c₁ l₁.stop).1,
      (endWriter none c₁ l₁.stop).2, ?_, ?_, rfl, rfl, ?_, ?_⟩
    · intro h hh
      rcases List.mem_append.mp hh with hh | hh
      · exact hmore h hh
      · rw [List.mem_singleton.mp hh]
        exact .takes
    · rw [← List.append_assoc]
      exact Steps.run_concat hrun₁ hlast
    · rw [← List.append_assoc, hbegun]
      exact hall
    · rw [← List.append_assoc, hbegun]
      exact hframed

/-- A client is forgotten with two messages in its queue, and while the frame of a heartbeat
does not get through to it. -/
theorem frames_sent_behind_ping :
    let limits := Settings.default.limits
    let m : Message := ⟨"message", none, 0⟩
    let m' : Message := ⟨"message", none, 1⟩
    let link : Link :=
      { socket := { window := 4 }, inbox := { capacity := 2 },
        intake := { queue := { capacity := 1 } } }
    let s := (Connection.start limits 0 0 0, link)
    let beat := limits.heartbeat.nanos
    let hs : List Happening := [.around (.queue m), .step 0 (.writer .start),
      .step beat (.writer .beat), .step beat (.writer (.put 9)), .around (.queue m'),
      .around .closeQueue]
    ∃ c l left more c' l', run limits hs s = some (c, l) ∧ left ≠ [] ∧
      Sent [.ping] l.socket.outbound.bytes left ∧
      run limits (hs ++ more) s = some (c', l') ∧ c'.writer = .ended ∧ l'.stopped = true ∧
      (begun limits (hs ++ more) s).reduceOption = [m, m'] ∧
      Framed ((begun limits (hs ++ more) s).map orPing) l'.socket.outbound.bytes := by
  intro limits m m' link s beat hs
  have hreached : (run limits hs s).any fun x =>
      x.1.writer ≠ .starting ∧ x.1.writer ≠ .ended ∧ x.1.writer.left ≠ [] ∧
      x.2.inbox.senders = 0 ∧ x.2.stopped = false ∧ x.2.socket.closed = false ∧
      0 < x.2.socket.window ∧ ∀ m ∈ x.2.inbox.items, fits limits (some m) = true := by
    decide +kernel
  obtain ⟨⟨c, l⟩, hrun, hreached⟩ := (Option.any_eq_true _ _).mp hreached
  obtain ⟨hstarted, hrunning, hleft, hsenders, hstopped, hclosed, hwindow, hfits⟩ :=
    of_decide_eq_true hreached
  obtain ⟨⟨-, -, left, hsent, hwriter⟩, -, -, -, hflush⟩ := frames_sent rfl rfl hrun
  obtain ⟨more, c', l', -, hrun', hended, hcancelled, hall, hframed⟩ :=
    hflush beat hstarted hrunning hsenders hstopped hclosed hwindow hfits
  have hbegun : begun limits hs s = [none] := by decide +kernel
  have hqueued : link.inbox.items ++ queued limits hs s = [m, m'] := by decide +kernel
  rw [hbegun] at hsent
  rw [hqueued] at hall
  refine ⟨c, l, left, more, c', l', hrun, ?_, hsent, hrun', hended, hcancelled, hall, hframed⟩
  rwa [hwriter hrunning]

end HookRelay.Connection
