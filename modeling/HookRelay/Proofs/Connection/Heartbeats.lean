import HookRelay.Proofs.Connection.Answering
import HookRelay.Proofs.Connection.Flushing
/-!
Which limits keep a client that answers. The check of the settings looks at each limit by
itself, so it also admits those with which the reader gives up before the first heartbeat,
no heartbeat fits into a frame, or none can be set at all.
-/

namespace HookRelay

open Wire

namespace Connection

/-- A connection may be stopped although its client answers. -/
def LosesClient (limits : Limits) (start : Nat) : Prop :=
  ∃ id ticket link s, IsFresh limits link ∧
    Runs limits ⟨start, Connection.start limits id ticket start, link⟩ s ∧
    s.link.stopped = true

/-- All has been said and heard before the next heartbeat. -/
structure Rests (limits : Limits) (beat due : Nat) (s : Moment) : Prop where
  serves : Serves limits s.link
  noErrors : s.conn.errors.take.1 = .empty
  writer : s.conn.writer = .idle beat
  reader : s.conn.reader = .reading due
  noItems : s.link.inbox.items = []
  heard : s.link.socket.inbound.left = []
  received : s.link.socket.outbound.left = []
  framed : ∃ begun, Framed begun s.link.socket.outbound.bytes

variable {limits : Limits} {beat due t : Nat} {s s' : Moment} {c : Connection} {l : Link}

theorem move_of_step {now : Nat} {a : Action} {x : Connection × Link}
    (hbreak : a.isBreakDown = false) (hstep : step limits now a c l = some x) :
    Move limits ⟨now, c, l⟩ ⟨now, x.1, x.2⟩ :=
  .task hbreak hstep

theorem Rests.writer_eq_none (h : Rests limits beat due s) (hbeat : t < beat) {w : WriterStep}
    (hbreak : (Action.writer w).isBreakDown = false) :
    stepWriter limits t w s.conn s.link = none := by
  cases hstep : stepWriter limits t w s.conn s.link with
  | none => rfl
  | some x =>
      have hidle := h.writer
      cases writerTurn_of_step hstep with
      | failsToStart _ hwriter | starts _ hwriter | losesClient hwriter | puts hwriter
      | expires hwriter =>
          rw [hidle] at hwriter
          cases hwriter
      | stops _ hstopped => exact absurd hstopped (Bool.eq_false_iff.mp h.serves.running)
      | takes _ htake =>
          have hitems := (Mailbox.take_eq_item_iff.mp htake).1
          rw [h.noItems] at hitems
          cases hitems
      | forgotten _ htake =>
          exact absurd (isOver_of_take htake) (Bool.eq_false_iff.mp h.serves.queue)
      | beats hwriter hlate =>
          rw [hidle] at hwriter
          cases hwriter
          omega
      | breaks => cases hbreak

theorem Rests.readFrame_eq_none (h : Rests limits beat due s) :
    readFrame limits t s.conn s.link = none := by
  simp only [readFrame, h.heard, scan, h.serves.sending]
  rfl

theorem Rests.reader_eq_none (h : Rests limits beat due s) (hdue : t < due) {r : ReaderStep}
    (hbreak : (Action.reader r).isBreakDown = false) :
    stepReader limits t r s.conn s.link = none := by
  cases r with
  | breakDown f => cases hbreak
  | stop | read | expire | offer | resume =>
      simp [stepReader, h.reader, h.serves.running, h.readFrame_eq_none, hdue]

theorem Rests.isQuiet (h : Rests limits beat due s) (hbeat : t < beat) (hdue : t < due) :
    IsQuiet limits t s := by
  refine ⟨fun a hbreak => ?_, h.received⟩
  cases a with
  | writer w => exact h.writer_eq_none hbeat hbreak
  | reader r => exact h.reader_eq_none hdue hbreak
  | coordinator r => exact stepCoordinator_eq_none h.serves.running h.noErrors r

theorem Rests.pass (h : Rests limits beat due s) {later : Nat} (hlater : s.now ≤ later)
    (hbeat : later ≤ beat) (hdue : later ≤ due) : Move limits s { s with now := later } :=
  .pass hlater fun t _ ht => h.isQuiet (by omega) (by omega)

theorem Rests.expires (h : Rests limits beat due s) (hdue : due ≤ t) :
    step limits t (.reader .expire) s.conn s.link =
      some (endReader (some (.frame (.deadline limits.timeout))) s.conn s.link) := by
  simp only [step, stepReader, h.reader, h.readFrame_eq_none]
  exact if_neg (by simpa using hdue)

theorem Rests.beats (h : Rests limits beat due s) (hbeat : beat ≤ t) :
    step limits t (.writer .beat) s.conn s.link =
      some (beginFrame limits t (nextBeat limits t beat) .ping s.conn s.link) := by
  simp only [step, stepWriter, h.writer]
  exact if_neg (Nat.not_lt.mpr hbeat)

/-- The connection once its writer has set the first heartbeat. -/
def started (limits : Limits) (id : UInt64) (ticket start : Nat) (l : Link) : Moment where
  now := start
  conn := { Connection.start limits id ticket start with
    writer := .idle (start + limits.heartbeat.nanos) }
  link := l

theorem move_started {start : Nat} (hpos : 0 < limits.heartbeat.nanos)
    (hclock : start + limits.heartbeat.nanos < clockEnd) (id : UInt64) (ticket : Nat) (l : Link) :
    Move limits ⟨start, Connection.start limits id ticket start, l⟩
      (started limits id ticket start l) := by
  have hstart : step limits start (.writer .start) (Connection.start limits id ticket start) l =
      some ((started limits id ticket start l).conn, l) :=
    congrArg some (startWriter_eq hpos hclock)
  exact move_of_step rfl hstart

theorem rests_started (hfresh : IsFresh limits l) (hempty : l.inbox.items = []) (id : UInt64)
    (ticket start : Nat) :
    Rests limits (start + limits.heartbeat.nanos) (start + limits.timeout.nanos)
      (started limits id ticket start l) where
  serves := hfresh.serves
  noErrors := rfl
  writer := rfl
  reader := rfl
  noItems := hempty
  heard := by
    change l.socket.inbound.left = []
    rw [hfresh.socket]
    rfl
  received := by
    change l.socket.outbound.left = []
    rw [hfresh.socket]
    rfl
  framed := by
    refine ⟨[], ?_⟩
    change Framed [] l.socket.outbound.bytes
    rw [hfresh.socket]
    exact .nil

/-- A link with nothing in it, over which a frame can be sent at once. -/
def emptyLink (window : Nat) : Link where
  socket := { window }
  inbox := { capacity := 1 }
  intake := { queue := { capacity := 1 } }

theorem emptyLink_isFresh (limits : Limits) {window : Nat} (h : 0 < window) :
    IsFresh limits (emptyLink window) :=
  ⟨rfl, h, rfl, nofun, rfl⟩

theorem take_post (herrors : c.errors = { capacity := 2, senders := 2 }) (e : ConnectionError) :
    (c.post (some e)).errors.take.1 = .item e := by
  simp only [post, herrors]
  rfl

/-- The coordinator stops a connection with an error. -/
theorem exists_stopped_of_posted (limits : Limits) (now : Nat) (l : Link) {e : ConnectionError}
    (hcoordinating : c.coordinating = true) (hposted : c.errors.take.1 = .item e) :
    ∃ s, Move limits ⟨now, c, l⟩ s ∧ s.link.stopped = true := by
  have hhear : step limits now (.coordinator .hear) c l =
      some (conclude [.connectionFailed c.id e] c l) := by
    simp only [step, stepCoordinator, hposted, hcoordinating]
    rfl
  exact ⟨_, move_of_step rfl hhear, rfl⟩

theorem exists_stopped_of_clockEnd {start : Nat}
    (hclock : clockEnd ≤ start + limits.heartbeat.nanos) (id : UInt64) (ticket : Nat) :
    ∃ s, Runs limits ⟨start, Connection.start limits id ticket start, l⟩ s ∧
      s.link.stopped = true := by
  let f : Fault := .reason "overflow when adding duration to instant"
  let c := Connection.start limits id ticket start
  have hstart : step limits start (.writer .start) c l = some (breakWriter f c l) := by
    simp only [step, stepWriter, startWriter]
    exact congrArg some (if_pos hclock)
  obtain ⟨s, hstops, hstopped⟩ :=
    exists_stopped_of_posted (c := (breakWriter f c l).1) limits start
    (breakWriter f c l).2 rfl (take_post rfl _)
  exact ⟨s, .tail (.single (move_of_step rfl hstart)) hstops, hstopped⟩

theorem exists_stopped_of_timeout_le {start : Nat} (hpos : 0 < limits.heartbeat.nanos)
    (hclock : start + limits.heartbeat.nanos < clockEnd)
    (hle : limits.timeout.nanos ≤ limits.heartbeat.nanos) (hfresh : IsFresh limits l)
    (hempty : l.inbox.items = []) (id : UInt64) (ticket : Nat) :
    ∃ s, Runs limits ⟨start, Connection.start limits id ticket start, l⟩ s ∧
      s.link.stopped = true := by
  have hrests := rests_started hfresh hempty id ticket start
  have hpass := hrests.pass (Nat.le_add_right start limits.timeout.nanos) (by omega) (Nat.le_refl _)
  let e : ConnectionError := .frame (.deadline limits.timeout)
  let x := endReader (some e) (started limits id ticket start l).conn l
  have hexpires : Move limits
      { started limits id ticket start l with now := start + limits.timeout.nanos }
      ⟨start + limits.timeout.nanos, x.1, x.2⟩ :=
    move_of_step rfl (hrests.expires (Nat.le_refl _))
  obtain ⟨s, hstops, hstopped⟩ := exists_stopped_of_posted (c := x.1) limits
    (start + limits.timeout.nanos) x.2 rfl (take_post rfl e)
  have hruns : Runs limits ⟨start, Connection.start limits id ticket start, l⟩ _ :=
    .tail (.single (move_started hpos hclock id ticket l)) hpass
  exact ⟨s, .tail (.tail hruns hexpires) hstops, hstopped⟩

theorem exists_stopped_of_not_fits {start : Nat} (hpos : 0 < limits.heartbeat.nanos)
    (hclock : start + limits.heartbeat.nanos < clockEnd)
    (hlt : limits.heartbeat.nanos < limits.timeout.nanos) (hfits : ¬ fits limits none = true)
    (hfresh : IsFresh limits l) (hempty : l.inbox.items = []) (id : UInt64) (ticket : Nat) :
    ∃ s, Runs limits ⟨start, Connection.start limits id ticket start, l⟩ s ∧
      s.link.stopped = true := by
  have hrests := rests_started hfresh hempty id ticket start
  have hpass := hrests.pass (Nat.le_add_right start limits.heartbeat.nanos) (Nat.le_refl _)
    (by omega)
  obtain ⟨e, he⟩ : ∃ e, encodeFrame .ping limits.maxFrameLen = .error e := by
    cases hping : encodeFrame .ping limits.maxFrameLen with
    | error e => exact ⟨e, rfl⟩
    | ok frame => exact absurd ((fits_iff (m := none)).mpr ⟨frame, hping⟩) hfits
  have hbeat := hrests.beats (Nat.le_refl (start + limits.heartbeat.nanos))
  rw [beginFrame, he] at hbeat
  let c := (started limits id ticket start l).conn
  let x := endWriter (some (.frame e)) c l
  have hfails : Move limits ⟨start + limits.heartbeat.nanos, c, l⟩
      ⟨start + limits.heartbeat.nanos, x.1, x.2⟩ :=
    move_of_step rfl hbeat
  obtain ⟨s, hstops, hstopped⟩ := exists_stopped_of_posted (c := x.1) limits
    (start + limits.heartbeat.nanos) x.2 rfl (take_post rfl _)
  have hruns : Runs limits ⟨start, Connection.start limits id ticket start, l⟩
      ⟨start + limits.heartbeat.nanos, c, l⟩ :=
    .tail (.single (move_started hpos hclock id ticket l)) hpass
  exact ⟨s, .tail (.tail hruns hfails) hstops, hstopped⟩

theorem heardPings_of_framed {begun : List Message} {socket : Socket}
    (hframed : Framed begun socket.outbound.bytes) (hleft : socket.outbound.left = []) :
    heardPings socket = pings begun := by
  have hreceived := received_framed_append hframed isFragment_nil
  rw [List.append_nil] at hreceived
  rw [heardPings, heard_of_left hleft, hreceived]

theorem step_put {now beat writeDue : Nat} {left : List UInt8}
    (hwriting : c.writer = .writing beat left writeDue) (hserves : Serves limits l)
    (hreceived : l.socket.outbound.left = []) (hroom : left.length ≤ l.socket.window) :
    step limits now (.writer (.put l.socket.window)) c l =
      some ({ c with writer := .idle beat },
        { l with socket.outbound := l.socket.outbound.put left }) := by
  have hwindow := hserves.window_pos
  simp only [step, stepWriter, hwriting, hserves.isOpen, Socket.room, hreceived, List.length_nil,
    Nat.sub_zero, Nat.min_self, putBytes, List.drop_eq_nil_of_le hroom,
    List.take_of_length_le hroom]
  rw [if_neg Bool.false_ne_true, if_neg (by omega)]
  rfl

theorem step_read {now : Nat} {m : Message} {frame : List UInt8} (hreader : c.reader = .reading due)
    (hleft : l.socket.inbound.left = frame) (hframe : encodeFrame m limits.maxFrameLen = .ok frame)
    (hpong : m.isPong = true) :
    step limits now (.reader .read) c l =
      some (awaitFrame limits now c, (hear frame.length l).write [.pongReceived c.id]) := by
  obtain ⟨hlen, -, hbytes⟩ := encodeFrame_eq_ok_iff.mp hframe
  have hlength : frame.length = (encode m).length + 2 := by
    rw [hbytes, List.length_append, length_beBytes, Nat.add_comm]
  simp only [step, stepReader, hreader, readFrame, hleft, scan_frame_self hframe hlen, readPayload,
    decode_encode_of_encodeFrame hframe, hlength]
  exact congrArg some (if_pos hpong)

/-- From one heartbeat to the next. -/
theorem Rests.exists_round (h : Rests limits beat due s) (hsuits : Suits limits)
    (hnow : s.now ≤ beat) (hdue : beat < due)
    (hwindow : limits.maxFrameLen + 2 ≤ s.link.socket.window) :
    ∃ s', Runs limits s s' ∧ s'.now = beat ∧ s'.link.socket.window = s.link.socket.window ∧
      Rests limits (beat + limits.heartbeat.nanos) (beat + limits.timeout.nanos) s' ∧
      heardPings s'.link.socket = heardPings s.link.socket + 1 := by
  obtain ⟨ping, hping⟩ : ∃ ping, encodeFrame .ping limits.maxFrameLen = .ok ping :=
    (fits_iff (m := none)).mp hsuits.ping
  obtain ⟨hlen, hmax, hbytes⟩ := encodeFrame_eq_ok_iff.mp hping
  obtain ⟨pong, hpong⟩ :
      ∃ pong, encodeFrame ⟨"pong", none, -1⟩ limits.maxFrameLen = .ok pong :=
    ⟨_, encodeFrame_eq_ok_iff.mpr ⟨hlen, hmax, rfl⟩⟩
  obtain ⟨begun, hframed⟩ := h.framed
  obtain ⟨now, c, l⟩ := s
  -- the writer sends a heartbeat
  let c₁ : Connection :=
    { c with writer := .writing (beat + limits.heartbeat.nanos) ping (beat + limits.timeout.nanos) }
  let c₂ : Connection := { c with writer := .idle (beat + limits.heartbeat.nanos) }
  let l₂ : Link := { l with socket.outbound := l.socket.outbound.put ping }
  have hbeat : Move limits ⟨beat, c, l⟩ ⟨beat, c₁, l⟩ := by
    have hstep := h.beats (Nat.le_refl beat)
    have hnext : nextBeat limits beat beat = beat + limits.heartbeat.nanos := by
      rw [nextBeat, if_neg (by omega)]
    rw [hnext, beginFrame, hping] at hstep
    exact move_of_step rfl hstep
  have hput : Move limits ⟨beat, c₁, l⟩ ⟨beat, c₂, l₂⟩ := by
    have hroom : ping.length ≤ l.socket.window := by
      rw [hbytes, List.length_append, length_beBytes]
      have hle : limits.maxFrameLen + 2 ≤ l.socket.window := hwindow
      omega
    have hstep : step limits beat (.writer (.put l.socket.window)) c₁ l = some (c₂, l₂) :=
      step_put rfl h.serves h.received hroom
    exact move_of_step rfl hstep
  -- the client answers it
  let l₃ : Link := { l₂ with socket := l₂.socket.receive.send [pong].flatten }
  have hframed₂ : Framed (begun ++ [.ping]) l₂.socket.receive.outbound.bytes :=
    hframed.concat hping
  have hheard : heardPings l₂.socket = heardPings l.socket := by
    simp only [heardPings, l₂, heard_put h.serves.outbound_le]
  have hheard' : heardPings l₂.socket.receive = heardPings l.socket + 1 := by
    rw [heardPings_of_framed hframed h.received,
      heardPings_of_framed hframed₂ (left_receive l₂.socket), pings_append]
    rfl
  have hpongs : ∀ frame ∈ [pong], IsPong limits.maxFrameLen frame :=
    List.forall_mem_singleton.mpr (isPong_of_encodeFrame hpong (by decide))
  have hanswer : Move limits ⟨beat, c₂, l₂⟩ ⟨beat, c₂, l₃⟩ :=
    .answer hpongs (hheard'.trans (by rw [hheard]; rfl))
  -- the reader hears the answer
  have hleft : l₃.socket.inbound.left = pong := by
    have hsent : l₃.socket.inbound.left = l.socket.inbound.left ++ [pong].flatten :=
      left_put h.serves.inbound_le _
    rw [hsent, h.heard]
    exact List.append_nil pong
  let l₄ : Link := (hear pong.length l₃).write [.pongReceived c.id]
  have hread :
      Move limits ⟨beat, c₂, l₃⟩ ⟨beat, awaitFrame limits beat c₂, l₄⟩ := by
    have hstep : step limits beat (.reader .read) c₂ l₃ =
        some (awaitFrame limits beat c₂, l₄) :=
      step_read h.reader hleft hpong (by decide)
    exact move_of_step rfl hstep
  refine ⟨⟨beat, awaitFrame limits beat c₂, l₄⟩, ?_, rfl, rfl, ?_, hheard'⟩
  · have hpass := h.pass hnow (Nat.le_refl _) (Nat.le_of_lt hdue)
    exact .tail (.tail (.tail (.tail (.single hpass) hbeat) hput) hanswer) hread
  · have hnothing : l₃.socket.inbound.left.drop pong.length = [] := by
      rw [hleft, List.drop_length]
    have hserves : Serves limits (hear pong.length l₃) :=
      ((h.serves.put ping).answer hpongs).hear (Nat.le_of_eq (congrArg List.length hleft).symm)
        (List.forall_mem_nil _) hnothing
    have hempty : l₄.socket.inbound.left = [] := (left_take _ pong.length).trans hnothing
    exact ⟨{ hserves with }, h.noErrors, rfl, rfl, h.noItems, hempty, left_receive l₂.socket,
      _, hframed₂⟩

/-- There is no end to the heartbeats of a connection that lasts. -/
theorem exists_heard {start : Nat} (hsuits : Suits limits)
    (hclock : start + limits.heartbeat.nanos < clockEnd) (id : UInt64) (ticket n : Nat) :
    ∃ s, Runs limits
      ⟨start, Connection.start limits id ticket start, emptyLink (limits.maxFrameLen + 2)⟩ s ∧
      heardPings s.link.socket = n := by
  have hlt := hsuits.lt
  let link := emptyLink (limits.maxFrameLen + 2)
  suffices h : ∃ s beat due,
      Runs limits ⟨start, Connection.start limits id ticket start, link⟩ s ∧
      Rests limits beat due s ∧ s.now ≤ beat ∧ beat < due ∧
      s.link.socket.window = limits.maxFrameLen + 2 ∧ heardPings s.link.socket = n by
    obtain ⟨s, -, -, hruns, -, -, -, -, hheard⟩ := h
    exact ⟨s, hruns, hheard⟩
  induction n with
  | zero =>
      have hfresh := emptyLink_isFresh limits (Nat.succ_pos (limits.maxFrameLen + 1))
      refine ⟨started limits id ticket start link, _, _,
        .single (move_started hsuits.pos hclock id ticket link),
        rests_started hfresh rfl id ticket start, Nat.le_add_right _ _,
        Nat.add_lt_add_left hlt start, rfl, ?_⟩
      have hframed : Framed [] link.socket.outbound.bytes := .nil
      exact heardPings_of_framed hframed rfl
  | succ n ih =>
      obtain ⟨s, beat, due, hruns, hrests, hnow, hdue, hwindow, hheard⟩ := ih
      obtain ⟨s', hround, hnow', hwindow', hrests', hheard'⟩ :=
        hrests.exists_round hsuits hnow hdue (Nat.le_of_eq hwindow.symm)
      refine ⟨s', _, _, hruns.trans hround, hrests', ?_, Nat.add_lt_add_left hlt beat,
        hwindow'.trans hwindow, hheard'.trans (congrArg (· + 1) hheard)⟩
      rw [hnow']
      exact Nat.le_add_right _ _

theorem LosesClient.not_staysConnected {start : Nat} (h : LosesClient limits start) :
    ¬ StaysConnected limits start := by
  obtain ⟨id, ticket, link, s, hfresh, hruns, hstopped⟩ := h
  intro hstays
  rw [(hstays id ticket link s hfresh hruns).2] at hstopped
  cases hstopped

theorem losesClient_of_not {start : Nat} (hpos : 0 < limits.heartbeat.nanos)
    (h : ¬ (limits.heartbeat.nanos < limits.timeout.nanos ∧ fits limits none = true ∧
      start + limits.heartbeat.nanos < clockEnd)) : LosesClient limits start := by
  have hfresh := emptyLink_isFresh limits Nat.one_pos
  suffices hstops : ∃ s,
      Runs limits ⟨start, Connection.start limits 0 0 start, emptyLink 1⟩ s ∧
        s.link.stopped = true by
    obtain ⟨s, hruns, hstopped⟩ := hstops
    exact ⟨0, 0, emptyLink 1, s, hfresh, hruns, hstopped⟩
  by_cases hclock : start + limits.heartbeat.nanos < clockEnd
  · by_cases hlt : limits.heartbeat.nanos < limits.timeout.nanos
    · have hfits : ¬ fits limits none = true := fun hfits => h ⟨hlt, hfits, hclock⟩
      exact exists_stopped_of_not_fits hpos hclock hlt hfits hfresh rfl 0 0
    · exact exists_stopped_of_timeout_le hpos hclock (Nat.not_lt.mp hlt) hfresh rfl 0 0
  · exact exists_stopped_of_clockEnd (Nat.not_lt.mp hclock) 0 0

/-- Which limits keep every client that answers. -/
theorem staysConnected_iff {start : Nat} (hpos : 0 < limits.heartbeat.nanos) :
    StaysConnected limits start ↔ limits.heartbeat.nanos < limits.timeout.nanos ∧
      fits limits none = true ∧ start + limits.heartbeat.nanos < clockEnd := by
  constructor
  · intro hstays
    by_contra hnot
    exact (losesClient_of_not hpos hnot).not_staysConnected hstays
  · rintro ⟨hlt, hping, hclock⟩
    exact staysConnected_of_suits ⟨hpos, hlt, hping⟩ hclock

end Connection

open Connection

theorem Settings.ne_zero_of_validate {s s' : Settings} (h : s.validate = .ok s') :
    ∀ t ∈ s.times, t.2 ≠ Duration.zero := by
  have hviolations := (validate_eq_ok_iff.mp h).1
  rw [violations, List.append_eq_nil_iff, List.append_eq_nil_iff] at hviolations
  have htimes := List.map_eq_nil_iff.mp hviolations.1.2
  intro t ht
  simpa using List.filter_eq_nil_iff.mp htimes t ht

/-- Under settings that have passed the check, a client that answers stays connected exactly if
the reader waits longer than the writer, a heartbeat fits into a frame, and the clock reaches
the first one. It then hears any number of heartbeats, and may be stopped otherwise. -/
theorem staysConnected_of_validated {settings settings' : Settings}
    (hvalid : settings.validate = .ok settings') (start : Nat) :
    (StaysConnected settings'.limits start ↔
      settings'.heartbeatInterval.nanos < settings'.heartbeatTimeout.nanos ∧
        (encode .ping).length ≤ settings'.maxFrameLen ∧
        start + settings'.heartbeatInterval.nanos < clockEnd) ∧
    (StaysConnected settings'.limits start → ∀ n, ∃ link s, IsFresh settings'.limits link ∧
      Runs settings'.limits ⟨start, Connection.start settings'.limits 0 0 start, link⟩ s ∧
      heardPings s.link.socket = n) ∧
    (¬ StaysConnected settings'.limits start → LosesClient settings'.limits start) := by
  have htimes := settings.ne_zero_of_validate hvalid
  obtain ⟨-, rfl⟩ := Settings.validate_eq_ok_iff.mp hvalid
  have hpos : 0 < settings'.limits.heartbeat.nanos := by
    refine Nat.pos_of_ne_zero fun hzero => htimes ("heartbeat.interval", _) List.mem_cons_self ?_
    exact congrArg Duration.mk hzero
  have hfits : fits settings'.limits none = true ↔
      (encode .ping).length ≤ settings'.maxFrameLen := by
    rw [fits, decide_eq_true_eq]
    exact and_iff_left (by decide)
  refine ⟨(staysConnected_iff hpos).trans (and_congr_right' (and_congr_left' hfits)),
    fun hstays n => ?_,
    fun hnot => losesClient_of_not hpos (mt (staysConnected_iff hpos).mpr hnot)⟩
  obtain ⟨hlt, hping, hclock⟩ := (staysConnected_iff hpos).mp hstays
  obtain ⟨s, hruns, hheard⟩ := exists_heard ⟨hpos, hlt, hping⟩ hclock 0 0 n
  exact ⟨_, s, emptyLink_isFresh _ (Nat.succ_pos _), hruns, hheard⟩

/-- Where nothing is set, clients that answer stay connected. -/
theorem staysConnected_of_validated_default :
    StaysConnected Settings.default.limits 0 ∧
      ∀ n, ∃ link s, IsFresh Settings.default.limits link ∧
        Runs Settings.default.limits
          ⟨0, Connection.start Settings.default.limits 0 0 0, link⟩ s ∧
        heardPings s.link.socket = n := by
  have hvalid : Settings.default.validate = .ok .default := by decide
  obtain ⟨hiff, hheard, -⟩ := staysConnected_of_validated hvalid 0
  have hstays := hiff.mpr (by decide)
  exact ⟨hstays, hheard hstays⟩

/-- Settings pass the check under which the reader gives up before the first heartbeat, the
heartbeat fits into no frame, or the clock does not reach it. -/
theorem validated_losesClient :
    let hasty := { Settings.default with
      heartbeatInterval := .ofSecs 10, heartbeatTimeout := .ofSecs 5 }
    let narrow := { Settings.default with maxFrameLen := 20 }
    let endless := { Settings.default with
      heartbeatInterval := .ofSecs (2 ^ 63), heartbeatTimeout := .ofSecs (2 ^ 63 + 1) }
    (hasty.validate = .ok hasty ∧ LosesClient hasty.limits 0) ∧
      (narrow.validate = .ok narrow ∧ LosesClient narrow.limits 0) ∧
      (endless.validate = .ok endless ∧ LosesClient endless.limits 0) := by
  intro hasty narrow endless
  exact ⟨⟨by decide, losesClient_of_not (by decide) (by decide)⟩,
    ⟨by decide, losesClient_of_not (by decide) (by decide)⟩,
    ⟨by decide, losesClient_of_not (by decide) (by decide)⟩⟩

end HookRelay
