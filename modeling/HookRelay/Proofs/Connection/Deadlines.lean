import HookRelay.Proofs.Connection.Reading
import HookRelay.Proofs.Wire.Deadlines

namespace HookRelay.Connection

open Wire

/-- The payload of the whole frame that a reader takes. -/
def frameTaken (limits : Limits) (h : Happening) (s : Connection × Link) : List (List UInt8) :=
  match h, s.1.reader with
  | .step _ (.reader .read), .reading _ =>
    match scan limits.maxFrameLen s.2.socket.inbound.left with
    | .frame payload _ => [payload]
    | .oversized _ _ | .incomplete _ => []
  | _, _ => []

def awaitsFrame : Reader → Bool
  | .reading _ => true
  | .offering _ | .waiting | .ended => false

/-- The instant at which a reader begins to wait for a frame. -/
def waitBegun (limits : Limits) (h : Happening) (s : Connection × Link) : List Nat :=
  match h with
  | .step now (.reader r) =>
    match stepReader limits now r s.1 s.2 with
    | some (c, _) => if awaitsFrame c.reader then [now] else []
    | none => []
  | _ => []

def framesTaken (limits : Limits) : List Happening → Connection × Link → List (List UInt8) :=
  Steps.seen (happen limits) (frameTaken limits)

def waitsBegun (limits : Limits) : List Happening → Connection × Link → List Nat :=
  Steps.seen (happen limits) (waitBegun limits)

/-- A reader that first waits until `due` begins each further wait behind one more frame. -/
inductive Paced (timeout due : Nat) (frames : List (List UInt8)) (begun : List Nat) :
    Reader → Prop
  | reading : begun.length = frames.length →
      Paced timeout due frames begun (.reading (begun.getLast?.elim due (· + timeout)))
  | offering {m : Message} : begun.length + 1 = frames.length →
      Paced timeout due frames begun (.offering m)
  | waiting : begun.length + 1 = frames.length → Paced timeout due frames begun .waiting
  | ended : Paced timeout due frames begun .ended

/-- What holds of a reader that, after a run, waits for a frame until an instant. -/
structure WaitsUntil (limits : Limits) (start : Nat) (hs : List Happening)
    (z z' : Connection × Link) (due : Nat) : Prop where
  /-- It has begun no wait but behind a frame that it has taken. -/
  behind : (waitsBegun limits hs z).length = (framesTaken limits hs z).length
  fresh : due = (waitsBegun limits hs z).getLastD start + limits.timeout.nanos
  /-- As long as it takes no frame, nothing puts the deadline off. -/
  kept : ∀ more z'', run limits more z' = some z'' → framesTaken limits more z' = [] →
    z''.1.reader = .reading due ∨ z''.1.reader = .ended
  expires : ∀ now x, stepReader limits now .expire z'.1 z'.2 = some x ↔
    due ≤ now ∧ ¬IsWhole limits.maxFrameLen z'.2.socket.inbound.left ∧
      z'.2.socket.inbound.ended = false ∧
      x = endReader (some (.frame (.deadline limits.timeout))) z'.1 z'.2

variable {limits : Limits} {now timeout due : Nat} {frames : List (List UInt8)}
  {begun : List Nat} {c : Connection} {l : Link} {x z z' : Connection × Link}

theorem waitBegun_of_step {s : ReaderStep} (h : stepReader limits now s c l = some x) :
    waitBegun limits (.step now (.reader s)) (c, l) =
      if awaitsFrame x.1.reader then [now] else [] := by
  rw [waitBegun, h]

theorem frameTaken_of_scan {payload rest : List UInt8} (hreading : c.reader = .reading due)
    (hscan : scan limits.maxFrameLen l.socket.inbound.left = .frame payload rest) :
    frameTaken limits (.step now (.reader .read)) (c, l) = [payload] := by
  simp only [frameTaken, hreading, hscan]

namespace Paced

theorem begin (hlen : begun.length + 1 = frames.length) :
    Paced timeout due frames (begun ++ [now]) (.reading (now + timeout)) := by
  have h := @Paced.reading timeout due frames (begun ++ [now])
    (by rw [List.length_append]; exact hlen)
  rwa [List.getLast?_append_of_ne_nil _ (List.cons_ne_nil now [])] at h

theorem length_eq (h : Paced timeout due frames begun (.reading now)) :
    begun.length = frames.length := by
  cases h
  assumption

theorem due_eq (h : Paced timeout due frames begun (.reading now)) :
    now = begun.getLast?.elim due (· + timeout) := by
  cases h
  rfl

end Paced

theorem stepReader_paced {s : ReaderStep}
    (h : Paced limits.timeout.nanos due frames begun c.reader)
    (hstep : stepReader limits now s c l = some x) :
    Paced limits.timeout.nanos due (frames ++ frameTaken limits (.step now (.reader s)) (c, l))
      (begun ++ waitBegun limits (.step now (.reader s)) (c, l)) x.1.reader := by
  rw [waitBegun_of_step hstep]
  have htaken {payload : List UInt8} (hlen : begun.length = frames.length) :
      begun.length + 1 = (frames ++ [payload]).length := by
    rw [List.length_append, hlen, List.length_singleton]
  have hnoFrame : s ≠ .read →
      frames ++ frameTaken limits (.step now (.reader s)) (c, l) = frames := by
    intro hread
    cases s with
    | read => exact absurd rfl hread
    | stop | expire | offer | resume | breakDown => exact List.append_nil _
  cases readerTurn_of_step hstep with
  | stops | undecodable | oversized | streamEnds | expires | refused | losesPlace | breaks =>
      exact .ended
  | pong hreading hscan =>
      rw [hreading] at h
      rw [frameTaken_of_scan hreading hscan]
      exact .begin (htaken h.length_eq)
  | hears hreading hscan =>
      rw [hreading] at h
      rw [frameTaken_of_scan hreading hscan]
      refine .offering ?_
      change (begun ++ []).length + 1 = _
      rw [List.append_nil]
      exact htaken h.length_eq
  | putsIn hoffering =>
      rw [hoffering] at h
      rw [hnoFrame nofun]
      cases h with
      | offering hlen => exact .begin hlen
  | standsInLine hoffering =>
      rw [hoffering] at h
      rw [hnoFrame nofun]
      cases h with
      | offering hlen => exact .waiting ((List.append_nil begun).symm ▸ hlen)
  | resumes hwaiting =>
      rw [hwaiting] at h
      rw [hnoFrame nofun]
      cases h with
      | waiting hlen => exact .begin hlen

theorem happen_paced {h : Happening}
    (hpaced : Paced limits.timeout.nanos due frames begun z.1.reader)
    (hhappen : happen limits h z = some z') :
    Paced limits.timeout.nanos due (frames ++ frameTaken limits h z)
      (begun ++ waitBegun limits h z) z'.1.reader := by
  have hsame : frameTaken limits h z = [] → waitBegun limits h z = [] →
      z'.1.reader = z.1.reader → Paced limits.timeout.nanos due (frames ++ frameTaken limits h z)
        (begun ++ waitBegun limits h z) z'.1.reader := by
    intro hframe hwait hreader
    rwa [hframe, hwait, List.append_nil, List.append_nil, hreader]
  cases h with
  | around o =>
      obtain ⟨l', -, rfl⟩ := Option.map_eq_some_iff.mp hhappen
      exact hsame rfl rfl rfl
  | step now a =>
      cases a with
      | reader s => exact stepReader_paced hpaced hhappen
      | writer s => exact hsame rfl rfl (stepWriter_sameReading hhappen).reader
      | coordinator s => exact hsame rfl rfl (stepCoordinator_sameReading hhappen).reader

theorem run_paced {hs : List Happening} (hreading : z.1.reader = .reading due)
    (hrun : run limits hs z = some z') :
    Paced limits.timeout.nanos due (framesTaken limits hs z) (waitsBegun limits hs z)
      z'.1.reader := by
  refine Steps.run_induction (P := fun hs z' => Paced limits.timeout.nanos due
    (framesTaken limits hs z) (waitsBegun limits hs z) z'.1.reader) ?_ ?_ hrun
  · rw [hreading]
    exact .reading rfl
  · intro hs h z₁ z₂ hrun ih hhappen
    rw [framesTaken, waitsBegun, Steps.seen_concat hrun hhappen, Steps.seen_concat hrun hhappen]
    exact happen_paced ih hhappen

theorem reading_of_noFrame {hs : List Happening} (hreading : z.1.reader = .reading due)
    (hrun : run limits hs z = some z') (hnone : framesTaken limits hs z = []) :
    z'.1.reader = .reading due ∨ z'.1.reader = .ended := by
  have hpaced := run_paced hreading hrun
  rw [hnone] at hpaced
  generalize waitsBegun limits hs z = begun at hpaced
  generalize z'.1.reader = r at hpaced
  cases hpaced with
  | reading hlen =>
      rw [List.eq_nil_of_length_eq_zero hlen]
      exact .inl rfl
  | offering hlen | waiting hlen => cases hlen
  | ended => exact .inr rfl

theorem readFrame_eq_none_iff : readFrame limits now c l = none ↔
    ¬IsWhole limits.maxFrameLen l.socket.inbound.left ∧ l.socket.inbound.ended = false := by
  unfold readFrame
  by_cases hwhole : IsWhole limits.maxFrameLen l.socket.inbound.left
  · rcases scan_of_isWhole hwhole with ⟨payload, hscan⟩ | ⟨len, hscan⟩ <;>
      simp [hscan, hwhole]
  · obtain ⟨e, hscan⟩ := scan_of_not_isWhole hwhole
    simp [hscan, hwhole]

theorem stepReader_expire_iff (hreading : c.reader = .reading due) :
    stepReader limits now .expire c l = some x ↔
      due ≤ now ∧ ¬IsWhole limits.maxFrameLen l.socket.inbound.left ∧
        l.socket.inbound.ended = false ∧
        x = endReader (some (.frame (.deadline limits.timeout))) c l := by
  have hnone := @readFrame_eq_none_iff limits now c l
  simp only [stepReader, hreading]
  split
  · next hearly =>
    constructor
    · intro h
      cases h
    · rintro ⟨hdue, hpart, hopen, -⟩
      rw [hnone.mpr ⟨hpart, hopen⟩] at hearly
      exact (hearly.elim (Nat.not_lt.mpr hdue) Bool.false_ne_true).elim
  · next hlate =>
    rw [not_or, Option.not_isSome_iff_eq_none, hnone] at hlate
    rw [Option.some.injEq, eq_comm]
    exact ⟨fun hx => ⟨Nat.not_lt.mp hlate.1, hlate.2.1, hlate.2.2, hx⟩, fun h => h.2.2.2⟩

theorem waitsUntil_of_run {id : UInt64} {ticket start : Nat} {link : Link} {hs : List Happening}
    (hrun : run limits hs (Connection.start limits id ticket start, link) = some z)
    (hreading : z.1.reader = .reading due) :
    WaitsUntil limits start hs (Connection.start limits id ticket start, link) z due := by
  have hpaced := run_paced rfl hrun
  rw [hreading] at hpaced
  refine ⟨hpaced.length_eq, ?_,
    fun more z' hmore hnone => reading_of_noFrame hreading hmore hnone,
    fun now x => stepReader_expire_iff hreading⟩
  rw [hpaced.due_eq, List.getLastD_eq_getLast?]
  cases (waitsBegun limits hs (Connection.start limits id ticket start, link)).getLast? <;> rfl

/-- Reads in a row, of which each has its own time, end when their frames are whole or, if
these are not whole in time, exactly when the time is over; and the reader of a connection
has a new deadline only behind a whole frame, be it the answer to a heartbeat or a message. -/
theorem reads_keep_to_clock {s : Inbound} (horderly : Inbound.IsOrderly s.closed s.coming)
    (ms maxLen n : Nat) :
    s.readMany ms maxLen n =
      (s.readings ms maxLen n).map (fun r => (r.answer, r.after.now)) ∧
    (s.readings ms maxLen n).IsChain (fun r r' => r'.before = r.after) ∧
    (∀ r ∈ s.readings ms maxLen n, Inbound.Punctual ms maxLen r) ∧
    ∀ limits id ticket start link hs z due,
      run limits hs (Connection.start limits id ticket start, link) = some z →
      z.1.reader = .reading due →
      WaitsUntil limits start hs (Connection.start limits id ticket start, link) z due :=
  ⟨Inbound.readMany_eq_map ms maxLen n s, Inbound.isChain_readings ms maxLen n s,
    fun _ hr => Inbound.punctual_of_mem_readings horderly hr,
    fun _ _ _ _ _ _ _ _ hrun hreading => waitsUntil_of_run hrun hreading⟩

/-- Of two frames that come byte by byte the first is too long, which its length shows after 6
milliseconds, and the second is not whole 8 milliseconds after that. A reader that hears as
little gives up when its time is over. -/
theorem reads_keep_to_clock_drip :
    let drip : Inbound := { coming := [.pause 3, .bytes [0], .pause 3, .bytes [200, 0],
      .pause 5, .bytes [9], .pause 2, .bytes [1], .pause 9] }
    let limits : Limits := ⟨⟨20⟩, ⟨8⟩, 100⟩
    let link : Link :=
      { socket := { window := 64 }, inbox := { capacity := 1 },
        intake := { queue := { capacity := 1 } } }
    let dripped : Link := { link with socket := (link.socket.send [0]).send [9] }
    (∃ r ∈ drip.readings 8 100 3, r.before.now = 6 ∧
      r.answer = .error (.deadline (.ofMillis 8)) ∧ r.after.now = 14) ∧
    stepReader limits 8 .expire (Connection.start limits 7 0 0) dripped =
      some (endReader (some (.frame (.deadline ⟨8⟩))) (Connection.start limits 7 0 0)
        dripped) := by
  intro drip limits link dripped
  have horderly : Inbound.IsOrderly drip.closed drip.coming :=
    .pause (.bytes (.pause (.bytes (.pause (.bytes (.pause (.bytes (.pause .nil))))))))
  obtain ⟨-, -, hpunctual, hwaits⟩ := reads_keep_to_clock horderly 8 100 3
  constructor
  · refine ⟨_, .tail _ (.head _), rfl, ?_⟩
    exact (hpunctual _ (.tail _ (.head _))).late (by decide) (by decide)
  · have hwaiting := hwaits limits 7 0 0 link [.around (.send [0]), .around (.send [9])] _ 8
      rfl rfl
    exact (hwaiting.expires 8 _).mpr ⟨Nat.le_refl _, by decide, rfl, rfl⟩

end HookRelay.Connection
