import HookRelay.Connection.Step

namespace HookRelay.Connection

open Wire

/-- What a writer does at a step. -/
inductive WriterTurn (limits : Limits) (now : Nat) (c : Connection) (l : Link) :
    WriterStep → Connection × Link → Prop
  /-- The first heartbeat cannot be set. -/
  | failsToStart (f : Fault) :
      c.writer = .starting → WriterTurn limits now c l .start (breakWriter f c l)
  | starts (beat : Nat) :
      c.writer = .starting → WriterTurn limits now c l .start ({ c with writer := .idle beat }, l)
  | stops {beat : Nat} :
      c.writer = .idle beat → l.stopped = true →
        WriterTurn limits now c l .stop (endWriter none c l)
  | takes {beat : Nat} {m : Message} {inbox : Mailbox Message} :
      c.writer = .idle beat → l.inbox.take = (.item m, inbox) →
      WriterTurn limits now c l .take (beginFrame limits now beat m c { l with inbox })
  | forgotten {beat : Nat} {inbox : Mailbox Message} :
      c.writer = .idle beat → l.inbox.take = (.disconnected, inbox) →
      WriterTurn limits now c l .take (endWriter none c l.stop)
  | beats {beat : Nat} :
      c.writer = .idle beat → beat ≤ now →
      WriterTurn limits now c l .beat
        (beginFrame limits now (nextBeat limits now beat) .ping c l)
  | losesClient {n beat due : Nat} {left : List UInt8} :
      c.writer = .writing beat left due → l.socket.closed = true →
      WriterTurn limits now c l (.put n) (endWriter (some (.frame (.stream .brokenPipe))) c l)
  | puts {n beat due : Nat} {left : List UInt8} :
      c.writer = .writing beat left due → l.socket.closed = false →
      min n l.socket.room ≠ 0 →
      WriterTurn limits now c l (.put n) (putBytes (min n l.socket.room) beat due left c l)
  | expires {beat due : Nat} {left : List UInt8} :
      c.writer = .writing beat left due → due ≤ now →
      WriterTurn limits now c l .expire
        (endWriter (some (.frame (.deadline limits.timeout))) c l)
  | breaks {f : Fault} :
      c.writer ≠ .ended → WriterTurn limits now c l (.breakDown f) (breakWriter f c l)

/-- What a reader does at a step. -/
inductive ReaderTurn (limits : Limits) (now : Nat) (c : Connection) (l : Link) :
    ReaderStep → Connection × Link → Prop
  | stops :
      c.reader ≠ .ended → l.stopped = true →
        ReaderTurn limits now c l .stop (endReader none c l)
  | undecodable {due : Nat} {payload rest : List UInt8} {e : DecodeError} :
      c.reader = .reading due →
      scan limits.maxFrameLen l.socket.inbound.left = .frame payload rest →
      decode payload = .error e →
      ReaderTurn limits now c l .read
        (endReader (some (.frame (.undecodable e))) c (hear (payload.length + 2) l))
  | pong {due : Nat} {payload rest : List UInt8} {m : Message} :
      c.reader = .reading due →
      scan limits.maxFrameLen l.socket.inbound.left = .frame payload rest →
      decode payload = .ok m → m.isPong = true →
      ReaderTurn limits now c l .read
        (awaitFrame limits now c, (hear (payload.length + 2) l).write [.pongReceived c.id])
  | hears {due : Nat} {payload rest : List UInt8} {m : Message} :
      c.reader = .reading due →
      scan limits.maxFrameLen l.socket.inbound.left = .frame payload rest →
      decode payload = .ok m → m.isPong = false →
      ReaderTurn limits now c l .read
        ({ c with reader := .offering m }, hear (payload.length + 2) l)
  | oversized {due len : Nat} {rest : List UInt8} :
      c.reader = .reading due →
      scan limits.maxFrameLen l.socket.inbound.left = .oversized len rest →
      ReaderTurn limits now c l .read
        (endReader (some (.frame (.tooLong len limits.maxFrameLen))) c (hear 2 l))
  | streamEnds {due : Nat} {e : StreamError} :
      c.reader = .reading due →
      scan limits.maxFrameLen l.socket.inbound.left = .incomplete e →
      l.socket.inbound.ended = true →
      ReaderTurn limits now c l .read (endReader (some (.frame (.stream e))) c l)
  | expires {due : Nat} :
      c.reader = .reading due → due ≤ now → readFrame limits now c l = none →
      ReaderTurn limits now c l .expire
        (endReader (some (.frame (.deadline limits.timeout))) c l)
  | putsIn {m : Message} {intake : Intake Message} :
      c.reader = .offering m → l.intake.bring c.ticket m = (.accepted, intake) →
      ReaderTurn limits now c l .offer (awaitFrame limits now c, { l with intake })
  | standsInLine {m : Message} {intake : Intake Message} :
      c.reader = .offering m → l.intake.bring c.ticket m = (.waits, intake) →
      ReaderTurn limits now c l .offer ({ c with reader := .waiting }, { l with intake })
  | refused {m : Message} {intake : Intake Message} :
      c.reader = .offering m → l.intake.bring c.ticket m = (.refused, intake) →
      ReaderTurn limits now c l .offer (loseIntake c l)
  | resumes :
      c.reader = .waiting → l.intake.isWaiting c.ticket = false →
      ReaderTurn limits now c l .resume (awaitFrame limits now c, l)
  | losesPlace :
      c.reader = .waiting → l.intake.isWaiting c.ticket = true →
      l.intake.queue.isListening = false → ReaderTurn limits now c l .resume (loseIntake c l)
  | breaks {f : Fault} :
      c.reader ≠ .ended →
      ReaderTurn limits now c l (.breakDown f)
        (endReader (some (.fault Half.reader.text f.text)) c
          (l.write [.connectionFault c.id .reader f.text]))

variable {limits : Limits} {now : Nat} {c : Connection} {l : Link} {x : Connection × Link}

theorem writerTurn_of_step {s : WriterStep} (h : stepWriter limits now s c l = some x) :
    WriterTurn limits now c l s x := by
  unfold stepWriter at h
  split at h
  · next hstarting =>
    cases h
    unfold startWriter
    dsimp only
    split
    · exact .failsToStart _ hstarting
    · split
      · exact .failsToStart _ hstarting
      · exact .starts _ hstarting
  · next hidle =>
    split at h <;> cases h
    next hstopped =>
    exact .stops hidle hstopped
  · next hidle =>
    split at h
    · next htake =>
      cases h
      exact .takes hidle htake
    · next htake =>
      cases h
      exact .forgotten hidle htake
    · cases h
  · next hidle =>
    split at h <;> cases h
    next hbeat =>
    exact .beats hidle (Nat.not_lt.mp hbeat)
  · next hwriting =>
    split at h
    · next hclosed =>
      cases h
      exact .losesClient hwriting hclosed
    · next hclosed =>
      split at h <;> cases h
      next hroom =>
      exact .puts hwriting (Bool.eq_false_iff.mpr hclosed) hroom
  · next hwriting =>
    split at h <;> cases h
    next hdue =>
    exact .expires hwriting (Nat.not_lt.mp hdue)
  · cases h
  · next hrunning =>
    cases h
    exact .breaks hrunning
  · cases h

theorem readerTurn_of_readFrame {due : Nat} (hreading : c.reader = .reading due)
    (h : readFrame limits now c l = some x) : ReaderTurn limits now c l .read x := by
  unfold readFrame at h
  split at h
  · next payload rest hscan =>
    cases h
    unfold readPayload
    split
    · next hdecode => exact .undecodable hreading hscan hdecode
    · next hdecode =>
      split
      · next hpong => exact .pong hreading hscan hdecode hpong
      · next hpong => exact .hears hreading hscan hdecode (Bool.eq_false_iff.mpr hpong)
  · next hscan =>
    cases h
    exact .oversized hreading hscan
  · next hscan =>
    split at h <;> cases h
    next hended =>
    exact .streamEnds hreading hscan hended

theorem readerTurn_of_step {s : ReaderStep} (h : stepReader limits now s c l = some x) :
    ReaderTurn limits now c l s x := by
  unfold stepReader at h
  split at h
  · cases h
  · next hrunning =>
    split at h <;> cases h
    next hstopped =>
    exact .stops hrunning hstopped
  · next hreading => exact readerTurn_of_readFrame hreading h
  · next hreading =>
    split at h <;> cases h
    next hlate =>
    rw [not_or, Option.not_isSome_iff_eq_none] at hlate
    exact .expires hreading (Nat.not_lt.mp hlate.1) hlate.2
  · next hoffering =>
    split at h <;> cases h
    · next hbring => exact .putsIn hoffering hbring
    · next hbring => exact .standsInLine hoffering hbring
    · next hbring => exact .refused hoffering hbring
  · next hwaiting =>
    split at h
    · next hline =>
      cases h
      exact .resumes hwaiting ((Bool.not_eq_true' _).mp hline)
    · next hline =>
      split at h <;> cases h
      next hclosed =>
      rw [Bool.not_eq_true, Bool.not_eq_false'] at hline
      exact .losesPlace hwaiting hline (Bool.eq_false_iff.mpr hclosed)
  · cases h
  · next hrunning =>
    cases h
    exact .breaks hrunning
  · cases h

theorem WriterTurn.running {s : WriterStep} (h : WriterTurn limits now c l s x) :
    c.writer ≠ .ended := by
  cases h with
  | breaks hrunning => exact hrunning
  | _ => simp_all

theorem ReaderTurn.running {s : ReaderStep} (h : ReaderTurn limits now c l s x) :
    c.reader ≠ .ended := by
  cases h with
  | stops hrunning | breaks hrunning => exact hrunning
  | _ => simp_all

end HookRelay.Connection
