import Mathlib.Logic.Relation
import HookRelay.Proofs.Connection.Sending
import HookRelay.Proofs.Connection.Teardown
import HookRelay.Proofs.Wire.Arriving
/-!
A connection to a client that answers. Nothing takes time but waiting: the client takes what
comes at the instant at which it comes and answers the heartbeats in it, and the clock moves
on only while nobody has anything to do. If a heartbeat is due before the reader gives up,
and if it fits into a frame, such a connection lasts.
-/

namespace HookRelay.Connection

open Wire

/-- A connection at an instant. -/
structure Moment where
  now : Nat
  conn : Connection
  link : Link

/-- How many of the messages are heartbeats. -/
def pings (ms : List Message) : Nat := ms.countP (·.kind = Message.ping.kind)

/-- How many heartbeats have come to the client. -/
def heardPings (s : Socket) : Nat := pings (received s.outbound.heard).1

/-- Bytes that the reader takes for the answer to a heartbeat. -/
def IsPong (maxLen : Nat) (frame : List UInt8) : Prop :=
  ∃ payload m, scan maxLen frame = .frame payload [] ∧ decode payload = .ok m ∧
    m.isPong = true

/-- What others do that neither ends the connection nor is the client's. They queue messages
only if the frames of these may be written. -/
def isAside (limits : Limits) : Around → Bool
  | .queue m => fits limits (some m)
  | .bring .. | .leave _ | .letIn | .take | .closeIntake | .addSender | .dropSender | .note _ =>
    true
  | .send _ | .halfClose | .close | .receive | .closeQueue | .stop => false

/-- Nobody has anything to do at an instant. -/
structure IsQuiet (limits : Limits) (t : Nat) (s : Moment) : Prop where
  tasks : ∀ a, a.isBreakDown = false → step limits t a s.conn s.link = none
  client : s.link.socket.outbound.left = []

/-- How a connection to a client that answers goes on. -/
inductive Move (limits : Limits) (s : Moment) : Moment → Prop
  | task {a : Action} {x : Connection × Link} : a.isBreakDown = false →
      step limits s.now a s.conn s.link = some x → Move limits s ⟨s.now, x.1, x.2⟩
  /-- The client takes what has come and answers each heartbeat in it. -/
  | answer {pongs : List (List UInt8)} : (∀ pong ∈ pongs, IsPong limits.maxFrameLen pong) →
      heardPings s.link.socket.receive = heardPings s.link.socket + pongs.length →
      Move limits s
        { s with link.socket := s.link.socket.receive.send pongs.flatten }
  | aside {o : Around} {l : Link} : isAside limits o = true →
      outside s.conn.ticket o s.link = some l → Move limits s { s with link := l }
  | pass {later : Nat} : s.now ≤ later →
      (∀ t, s.now ≤ t → t < later → IsQuiet limits t s) →
      Move limits s { s with now := later }

/-- All that can become of a connection to a client that answers. -/
def Runs (limits : Limits) : Moment → Moment → Prop := Relation.ReflTransGen (Move limits)

/-- The link of a connection that is about to start. -/
structure IsFresh (limits : Limits) (l : Link) : Prop where
  socket : l.socket = { window := l.socket.window }
  window_pos : 0 < l.socket.window
  queue : l.inbox.isOver = false
  fitting : ∀ m ∈ l.inbox.items, fits limits (some m) = true
  running : l.stopped = false

/-- A connection that starts at an instant never ends, as long as the client answers. -/
def StaysConnected (limits : Limits) (start : Nat) : Prop :=
  ∀ id ticket link s, IsFresh limits link →
    Runs limits ⟨start, Connection.start limits id ticket start, link⟩ s →
    s.conn.reader ≠ .ended ∧ s.link.stopped = false

/-- What the client and the relay have of each other while the client answers. -/
structure Serves (limits : Limits) (l : Link) : Prop where
  running : l.stopped = false
  isOpen : l.socket.closed = false
  sending : l.socket.inbound.ended = false
  window_pos : 0 < l.socket.window
  outbound_le : l.socket.outbound.taken ≤ l.socket.outbound.bytes.length
  inbound_le : l.socket.inbound.taken ≤ l.socket.inbound.bytes.length
  queue : l.inbox.isOver = false
  fitting : ∀ m ∈ l.inbox.items, fits limits (some m) = true
  pongs : ∃ frames : List (List UInt8),
    (∀ frame ∈ frames, IsPong limits.maxFrameLen frame) ∧
    l.socket.inbound.left = frames.flatten

/-- An answer is under way to the reader, or a heartbeat to the client. -/
def Owed (begun : List Message) (s : Socket) : Prop :=
  s.inbound.left ≠ [] ∨ heardPings s < pings begun

/-- The next heartbeat comes before the reader gives up, if that is not put off before. -/
inductive KeepsTime (limits : Limits) (now due : Nat) (owed : Prop) : Writer → Prop
  | starting : now + limits.heartbeat.nanos < due → now + limits.heartbeat.nanos < clockEnd →
      KeepsTime limits now due owed .starting
  | idle {beat : Nat} : beat ≤ now + limits.heartbeat.nanos → beat < due ∨ owed →
      KeepsTime limits now due owed (.idle beat)
  | writing {beat writeDue : Nat} {left : List UInt8} : beat ≤ now + limits.heartbeat.nanos →
      beat < due ∨ owed → now < writeDue →
      KeepsTime limits now due owed (.writing beat left writeDue)

/-- What every move of a connection keeps: the reader gives up at `due`, and the writer has
begun to write `begun`. -/
structure Lasts (limits : Limits) (due : Nat) (begun : List Message) (s : Moment) : Prop where
  serves : Serves limits s.link
  noErrors : s.conn.errors.take.1 = .empty
  reader : s.conn.reader = .reading due
  early : s.now < due
  wrote : s.conn.writer.Wrote begun s.link.socket.outbound.bytes
  keepsTime : KeepsTime limits s.now due (Owed begun s.link.socket) s.conn.writer

/-- Limits under which the reader waits longer than the writer. -/
structure Suits (limits : Limits) : Prop where
  pos : 0 < limits.heartbeat.nanos
  lt : limits.heartbeat.nanos < limits.timeout.nanos
  ping : fits limits none = true

variable {limits : Limits} {due : Nat} {begun : List Message} {w : Writer} {s s' : Moment}
  {l : Link} {socket : Socket}

theorem pings_append (ms ms' : List Message) : pings (ms ++ ms') = pings ms + pings ms' :=
  List.countP_append

theorem received_append (bs more : List UInt8) :
    (received bs).1 <+: (received (bs ++ more)).1 := by
  fun_induction received bs with
  | case1 bs payload rest hscan ms n hrest ih =>
      rw [received_of_scan_frame (scan_append_of_frame hscan more)]
      rw [hrest] at ih
      exact (List.prefix_append_right_inj _).mpr ih
  | case2 => exact List.nil_prefix

theorem heardPings_le (hwrote : w.Wrote begun socket.outbound.bytes) :
    heardPings socket ≤ pings begun := by
  have hheard : (received socket.outbound.heard).1 <+: begun := by
    refine (received_append _ socket.outbound.left).trans ?_
    rw [Stream.heard, Stream.left, List.take_append_drop]
    exact hwrote.received
  exact hheard.sublist.countP_le

theorem left_put {x : Stream} (hle : x.taken ≤ x.bytes.length) (bs : List UInt8) :
    (x.put bs).left = x.left ++ bs :=
  List.drop_append_of_le_length hle

theorem taken_put_le {x : Stream} (hle : x.taken ≤ x.bytes.length) (bs : List UInt8) :
    (x.put bs).taken ≤ (x.put bs).bytes.length :=
  Nat.le_trans hle (List.prefix_append _ bs).length_le

theorem heard_put {x : Stream} (hle : x.taken ≤ x.bytes.length) (bs : List UInt8) :
    (x.put bs).heard = x.heard :=
  List.take_append_of_le_length hle

theorem left_take (x : Stream) (n : Nat) : (x.take n).left = x.left.drop n :=
  List.drop_drop.symm

theorem taken_take_le {x : Stream} {n : Nat} (hle : x.taken ≤ x.bytes.length)
    (hn : n ≤ x.left.length) : (x.take n).taken ≤ (x.take n).bytes.length := by
  rw [Stream.left, List.length_drop] at hn
  change x.taken + n ≤ x.bytes.length
  omega

theorem heard_of_left {x : Stream} (h : x.left = []) : x.heard = x.bytes := by
  rw [← List.append_nil x.heard, ← h]
  exact List.take_append_drop _ _

theorem IsPong.ne_nil {maxLen : Nat} {frame : List UInt8} (h : IsPong maxLen frame) :
    frame ≠ [] := by
  obtain ⟨payload, m, hscan, -, -⟩ := h
  rintro rfl
  cases hscan

theorem isPong_of_encodeFrame {maxLen : Nat} {m : Message} {frame : List UInt8}
    (h : encodeFrame m maxLen = .ok frame) (hpong : m.isPong = true) : IsPong maxLen frame := by
  have hlen := (encodeFrame_eq_ok_iff.mp h).1
  exact ⟨encode m, m, scan_frame_self h hlen, decode_encode_of_encodeFrame h, hpong⟩

theorem drop_of_scan_frame {maxLen : Nat} {bs payload rest : List UInt8}
    (h : scan maxLen bs = .frame payload rest) : bs.drop (payload.length + 2) = rest := by
  obtain ⟨hi, lo, rfl, -, -⟩ := exists_of_scan_frame h
  exact List.drop_left

theorem Owed.append (h : Owed begun socket) (more : List Message) :
    Owed (begun ++ more) socket := by
  rw [Owed, pings_append]
  exact h.imp_right fun hlt => Nat.lt_add_right _ hlt

theorem Owed.put (h : Owed begun socket)
    (hle : socket.outbound.taken ≤ socket.outbound.bytes.length) (bs : List UInt8) :
    Owed begun { socket with outbound := socket.outbound.put bs } := by
  simp only [Owed, heardPings, heard_put hle]
  exact h

section

variable {frames : List (List UInt8)} {maxLen : Nat} {payload rest : List UInt8}

theorem exists_scan_of_ne_nil (h : ∀ frame ∈ frames, IsPong maxLen frame)
    (hne : frames.flatten ≠ []) :
    ∃ payload rest, scan maxLen frames.flatten = .frame payload rest := by
  cases frames with
  | nil => exact absurd rfl hne
  | cons frame frames =>
      obtain ⟨payload, m, hscan, -, -⟩ := h frame List.mem_cons_self
      exact ⟨payload, _, scan_append_of_frame hscan frames.flatten⟩

theorem scan_ne_oversized (h : ∀ frame ∈ frames, IsPong maxLen frame) (len : Nat) :
    scan maxLen frames.flatten ≠ .oversized len rest := by
  by_cases hne : frames.flatten = []
  · rw [hne]
    nofun
  · obtain ⟨payload, rest', hscan⟩ := exists_scan_of_ne_nil h hne
    rw [hscan]
    nofun

theorem pong_of_scan (h : ∀ frame ∈ frames, IsPong maxLen frame)
    (hscan : scan maxLen frames.flatten = .frame payload rest) :
    (∃ m, decode payload = .ok m ∧ m.isPong = true) ∧
      ∃ frames' : List (List UInt8), (∀ frame ∈ frames', IsPong maxLen frame) ∧
        rest = frames'.flatten := by
  cases frames with
  | nil => cases hscan
  | cons frame frames =>
      obtain ⟨⟨payload', m, hscan', hdecode, hpong⟩, hframes⟩ := List.forall_mem_cons.mp h
      have hfirst := scan_append_of_frame hscan' frames.flatten
      rw [← List.flatten_cons, hscan] at hfirst
      cases hfirst
      exact ⟨⟨m, hdecode, hpong⟩, frames, hframes, rfl⟩

end

namespace Serves

theorem put (h : Serves limits l) (bs : List UInt8) :
    Serves limits { l with socket.outbound := l.socket.outbound.put bs } :=
  { h with outbound_le := taken_put_le h.outbound_le bs }

theorem answer {pongs : List (List UInt8)} (h : Serves limits l)
    (hpongs : ∀ pong ∈ pongs, IsPong limits.maxFrameLen pong) :
    Serves limits { l with socket := l.socket.receive.send pongs.flatten } := by
  obtain ⟨frames, hframes, hleft⟩ := h.pongs
  refine { h with
    outbound_le := taken_take_le h.outbound_le (Nat.le_refl _)
    inbound_le := taken_put_le h.inbound_le _
    pongs := ⟨frames ++ pongs, List.forall_mem_append.mpr ⟨hframes, hpongs⟩, ?_⟩ }
  rw [List.flatten_append, ← hleft]
  exact left_put h.inbound_le _

theorem hear {frames : List (List UInt8)} {n : Nat} (h : Serves limits l)
    (hn : n ≤ l.socket.inbound.left.length)
    (hframes : ∀ frame ∈ frames, IsPong limits.maxFrameLen frame)
    (hleft : l.socket.inbound.left.drop n = frames.flatten) :
    Serves limits (Connection.hear n l) :=
  { h with
    inbound_le := taken_take_le h.inbound_le hn
    pongs := ⟨frames, hframes, (left_take _ n).trans hleft⟩ }

end Serves

/-- The reader waits anew, and the next heartbeat is due before it gives up. -/
theorem KeepsTime.of_heard {now due : Nat} {owed owed' : Prop}
    (h : KeepsTime limits now due owed w) (hlt : limits.heartbeat.nanos < limits.timeout.nanos) :
    KeepsTime limits now (now + limits.timeout.nanos) owed' w := by
  cases h with
  | starting _ hclock => exact .starting (by omega) hclock
  | idle hbeat => exact .idle hbeat (.inl (by omega))
  | writing hbeat _ hin => exact .writing hbeat (.inl (by omega)) hin

theorem KeepsTime.imp {now due : Nat} {owed owed' : Prop} (h : KeepsTime limits now due owed w)
    (howed : owed → owed') : KeepsTime limits now due owed' w := by
  cases h with
  | starting hbeat hclock => exact .starting hbeat hclock
  | idle hbeat hor => exact .idle hbeat (hor.imp_right howed)
  | writing hbeat hor hin => exact .writing hbeat (hor.imp_right howed) hin

theorem startWriter_eq (hpos : 0 < limits.heartbeat.nanos) {now : Nat} {c : Connection}
    (h : now + limits.heartbeat.nanos < clockEnd) :
    startWriter limits now c l =
      ({ c with writer := .idle (now + limits.heartbeat.nanos) }, l) := by
  rw [startWriter, if_neg (by omega), if_neg (by omega)]

theorem nextBeat_le {now beat : Nat} (h : beat ≤ now) :
    nextBeat limits now beat ≤ now + limits.heartbeat.nanos := by
  rw [nextBeat]
  split <;> omega

theorem isOver_of_take {inbox inbox' : Mailbox Message}
    (h : inbox.take = (.disconnected, inbox')) : inbox.isOver = true := by
  unfold Mailbox.take at h
  split at h
  · cases h
  · split at h
    · assumption
    · cases h

theorem isOver_offer (inbox : Mailbox Message) (m : Message) :
    (inbox.offer m).2.isOver = inbox.isOver := by
  unfold Mailbox.offer
  split
  · rfl
  · split <;> rfl

theorem forall_mem_offer {P : Message → Prop} {inbox : Mailbox Message} {m : Message}
    (h : ∀ m' ∈ inbox.items, P m') (hm : P m) : ∀ m' ∈ (inbox.offer m).2.items, P m' := by
  unfold Mailbox.offer
  split
  · exact h
  · split
    · exact h
    · exact List.forall_mem_append.mpr ⟨h, List.forall_mem_singleton.mpr hm⟩

theorem stepCoordinator_eq_none {c : Connection} (hrunning : l.stopped = false)
    (herrors : c.errors.take.1 = .empty) (r : CoordinatorStep) : stepCoordinator r c l = none := by
  unfold stepCoordinator
  split
  · rfl
  · cases r with
    | stop => simp [hrunning]
    | hear => simp [herrors]

theorem Suits.lt_add (h : Suits limits) (now : Nat) : now < now + limits.timeout.nanos :=
  Nat.lt_add_of_pos_right (Nat.zero_lt_of_lt h.lt)

namespace Lasts

theorem beginFrame {beat beat' : Nat} {m : Option Message} {inbox : Mailbox Message}
    (h : Lasts limits due begun s) (hsuits : Suits limits) (hidle : s.conn.writer = .idle beat)
    (hfits : fits limits m = true) (hover : inbox.isOver = false)
    (hitems : ∀ m ∈ inbox.items, fits limits (some m) = true)
    (hbeat : beat' ≤ s.now + limits.heartbeat.nanos)
    (howed : beat' < due ∨ Owed (begun ++ [orPing m]) s.link.socket) :
    let x := Connection.beginFrame limits s.now beat' (orPing m) s.conn { s.link with inbox }
    Lasts limits due (begun ++ [orPing m]) ⟨s.now, x.1, x.2⟩ := by
  obtain ⟨frame, hframe⟩ := fits_iff.mp hfits
  have hwrote := h.wrote
  rw [hidle] at hwrote
  simp only [Connection.beginFrame, hframe]
  exact { h with
    serves := { h.serves with queue := hover, fitting := hitems }
    wrote := hwrote.beginning _ _ hframe
    keepsTime := .writing hbeat howed (hsuits.lt_add s.now) }

theorem writes {w : WriterStep} {x : Connection × Link} (h : Lasts limits due begun s)
    (hsuits : Suits limits) (hbreak : (Action.writer w).isBreakDown = false)
    (hstep : stepWriter limits s.now w s.conn s.link = some x) :
    ∃ begun', Lasts limits due begun' ⟨s.now, x.1, x.2⟩ := by
  have hkeeps := h.keepsTime
  have hwrote := h.wrote
  cases w with
  | start =>
      cases hwriter : s.conn.writer with
      | starting =>
          rw [hwriter] at hkeeps hwrote
          obtain ⟨hbeat, hclock⟩ := hkeeps
          obtain ⟨hframed⟩ := hwrote
          simp only [stepWriter, hwriter, startWriter_eq hsuits.pos hclock] at hstep
          cases hstep
          exact ⟨begun, { h with
            wrote := .idle hframed
            keepsTime := .idle (Nat.le_refl _) (.inl hbeat) }⟩
      | idle | writing | ended =>
          simp only [stepWriter, hwriter] at hstep
          cases hstep
  | stop =>
      cases writerTurn_of_step hstep with
      | stops _ hstopped => exact absurd hstopped (Bool.eq_false_iff.mp h.serves.running)
  | take =>
      cases writerTurn_of_step hstep with
      | @takes beat m inbox hidle htake =>
          rw [hidle] at hkeeps
          obtain ⟨⟩ | ⟨hbeat, howed⟩ := hkeeps
          obtain ⟨hitems, hinbox⟩ := Mailbox.take_eq_item_iff.mp htake
          have hover : inbox.isOver = false := by
            rw [hinbox]
            exact h.serves.queue
          have hfitting := h.serves.fitting
          rw [hitems, List.forall_mem_cons] at hfitting
          exact ⟨_, h.beginFrame (m := some m) hsuits hidle hfitting.1 hover hfitting.2 hbeat
            (howed.imp_right fun howed => howed.append _)⟩
      | forgotten _ htake =>
          exact absurd (isOver_of_take htake) (Bool.eq_false_iff.mp h.serves.queue)
  | beat =>
      cases writerTurn_of_step hstep with
      | @beats beat hidle hbeat =>
          -- the client has not heard this heartbeat yet
          have hheard := heardPings_le hwrote
          have howed : Owed (begun ++ [.ping]) s.link.socket := by
            refine .inr ?_
            rw [pings_append]
            exact Nat.lt_succ_of_le hheard
          exact ⟨_, h.beginFrame (m := none) hsuits hidle hsuits.ping h.serves.queue
            h.serves.fitting (nextBeat_le hbeat) (.inr howed)⟩
  | put n =>
      cases writerTurn_of_step hstep with
      | losesClient _ hclosed => exact absurd hclosed (Bool.eq_false_iff.mp h.serves.isOpen)
      | @puts _ beat writeDue left hwriting _ _ =>
          rw [hwriting] at hkeeps hwrote
          obtain ⟨⟩ | ⟨⟩ | ⟨hbeat, howed, hin⟩ := hkeeps
          have howed' := howed.imp_right fun howed =>
            howed.put h.serves.outbound_le (left.take (min n s.link.socket.room))
          refine ⟨begun, { h with
            serves := h.serves.put _
            wrote := hwrote.put
            keepsTime := ?_ }⟩
          simp only [putBytes]
          split
          · exact .idle hbeat howed'
          · exact .writing hbeat howed' hin
  | expire =>
      cases writerTurn_of_step hstep with
      | expires hwriting hlate =>
          rw [hwriting] at hkeeps
          obtain ⟨⟩ | ⟨⟩ | ⟨-, -, hin⟩ := hkeeps
          omega
  | breakDown f => cases hbreak

theorem reads {r : ReaderStep} {x : Connection × Link} (h : Lasts limits due begun s)
    (hsuits : Suits limits) (hbreak : (Action.reader r).isBreakDown = false)
    (hstep : stepReader limits s.now r s.conn s.link = some x) :
    ∃ due', Lasts limits due' begun ⟨s.now, x.1, x.2⟩ := by
  have hreader := h.reader
  obtain ⟨frames, hframes, hleft⟩ := h.serves.pongs
  cases readerTurn_of_step hstep with
  | stops _ hstopped => exact absurd hstopped (Bool.eq_false_iff.mp h.serves.running)
  | undecodable _ hscan hdecode =>
      obtain ⟨⟨m, hdecode', -⟩, -⟩ := pong_of_scan hframes (hleft ▸ hscan)
      rw [hdecode] at hdecode'
      cases hdecode'
  | @pong _ payload rest m _ hscan hdecode hpong =>
      obtain ⟨-, frames', hframes', rfl⟩ := pong_of_scan hframes (hleft ▸ hscan)
      have hlength := length_of_scan_frame hscan
      have hserves := h.serves.hear (by omega) hframes' (drop_of_scan_frame hscan)
      exact ⟨s.now + limits.timeout.nanos, { h with
        serves := { hserves with }
        reader := rfl
        early := hsuits.lt_add s.now
        keepsTime := h.keepsTime.of_heard hsuits.lt }⟩
  | hears _ hscan hdecode hpong =>
      obtain ⟨⟨m, hdecode', hpong'⟩, -⟩ := pong_of_scan hframes (hleft ▸ hscan)
      rw [hdecode] at hdecode'
      cases hdecode'
      rw [hpong] at hpong'
      cases hpong'
  | oversized _ hscan => exact absurd (hleft ▸ hscan) (scan_ne_oversized hframes _)
  | streamEnds _ _ hended => exact absurd hended (Bool.eq_false_iff.mp h.serves.sending)
  | expires hreading hlate =>
      rw [hreader] at hreading
      cases hreading
      exact absurd h.early (Nat.not_lt.mpr hlate)
  | putsIn hoffering | standsInLine hoffering | refused hoffering =>
      rw [hreader] at hoffering
      cases hoffering
  | resumes hwaiting | losesPlace hwaiting =>
      rw [hreader] at hwaiting
      cases hwaiting
  | breaks => cases hbreak

theorem answer {pongs : List (List UInt8)} (h : Lasts limits due begun s)
    (hpongs : ∀ pong ∈ pongs, IsPong limits.maxFrameLen pong)
    (hheard : heardPings s.link.socket.receive = heardPings s.link.socket + pongs.length) :
    Lasts limits due begun
      { s with link.socket := s.link.socket.receive.send pongs.flatten } := by
  have hsent : (s.link.socket.receive.send pongs.flatten).inbound.left =
      s.link.socket.inbound.left ++ pongs.flatten := left_put h.serves.inbound_le _
  have howed : Owed begun s.link.socket →
      Owed begun (s.link.socket.receive.send pongs.flatten) := by
    rintro (hne | hlt)
    · exact .inl (by rw [hsent]; exact List.append_ne_nil_of_left_ne_nil hne _)
    · -- the heartbeat that the client has not heard is still on its way, or answered just now
      cases pongs with
      | nil => exact .inr (Nat.lt_of_le_of_lt (Nat.le_of_eq hheard) hlt)
      | cons pong pongs =>
          refine .inl ?_
          rw [hsent, List.flatten_cons]
          have hne := (hpongs pong List.mem_cons_self).ne_nil
          exact List.append_ne_nil_of_right_ne_nil _ (List.append_ne_nil_of_left_ne_nil hne _)
  exact { h with serves := h.serves.answer hpongs, keepsTime := h.keepsTime.imp howed }

theorem aside {o : Around} (h : Lasts limits due begun s) (haside : isAside limits o = true)
    (houtside : outside s.conn.ticket o s.link = some l) :
    Lasts limits due begun { s with link := l } := by
  cases o with
  | queue m =>
      cases houtside
      exact { h with serves := { h.serves with
        queue := (isOver_offer _ m).trans h.serves.queue
        fitting := forall_mem_offer h.serves.fitting haside } }
  | bring | leave =>
      simp only [outside] at houtside
      split at houtside <;> cases houtside
      exact { h with serves := { h.serves with } }
  | letIn =>
      obtain ⟨⟨t, intake⟩, -, rfl⟩ := Option.map_eq_some_iff.mp houtside
      exact { h with serves := { h.serves with } }
  | take | closeIntake | addSender | dropSender | note =>
      cases houtside
      exact { h with serves := { h.serves with } }
  | send | halfClose | close | receive | closeQueue | stop => cases haside

/-- When nobody has anything to do, the client has had all heartbeats and the reader all answers
to them. -/
theorem exists_beat (h : Lasts limits due begun s) (hquiet : IsQuiet limits s.now s) :
    ∃ beat, s.conn.writer = .idle beat ∧ beat ≤ s.now + limits.heartbeat.nanos ∧
      beat < due := by
  have hkeeps := h.keepsTime
  have hwrote := h.wrote
  obtain ⟨frames, hframes, hleft⟩ := h.serves.pongs
  have hheard : s.link.socket.inbound.left = [] := by
    by_contra hne
    rw [hleft] at hne
    obtain ⟨payload, rest, hscan⟩ := exists_scan_of_ne_nil hframes hne
    have hread := hquiet.tasks (.reader .read) rfl
    simp only [step, stepReader, h.reader, readFrame, hleft, hscan] at hread
    cases hread
  cases hwriter : s.conn.writer with
  | starting =>
      have hstart := hquiet.tasks (.writer .start) rfl
      simp only [step, stepWriter, hwriter] at hstart
      cases hstart
  | idle beat =>
      rw [hwriter] at hkeeps hwrote
      obtain ⟨⟩ | ⟨hbeat, hor⟩ := hkeeps
      refine ⟨beat, rfl, hbeat, hor.resolve_right ?_⟩
      rintro (hne | hlt)
      · exact hne hheard
      · rw [heardPings, heard_of_left hquiet.client, hwrote.received_idle] at hlt
        exact Nat.lt_irrefl _ hlt
  | writing beat left writeDue =>
      have hput := hquiet.tasks (.writer (.put s.link.socket.window)) rfl
      have hwindow := h.serves.window_pos
      simp only [step, stepWriter, hwriter, h.serves.isOpen, Socket.room, hquiet.client,
        List.length_nil, Nat.sub_zero, Nat.min_self] at hput
      rw [if_neg Bool.false_ne_true, if_neg (by omega)] at hput
      cases hput
  | ended =>
      rw [hwriter] at hkeeps
      cases hkeeps

theorem pass {later : Nat} (h : Lasts limits due begun s) (hlater : s.now ≤ later)
    (hquiet : ∀ t, s.now ≤ t → t < later → IsQuiet limits t s) :
    Lasts limits due begun { s with now := later } := by
  obtain rfl | hlt := Nat.eq_or_lt_of_le hlater
  · exact h
  · obtain ⟨beat, hwriter, hbeat, hdue⟩ := h.exists_beat (hquiet s.now (Nat.le_refl _) hlt)
    have hearly : later ≤ beat := by
      by_contra hlate
      have hbeats := (hquiet (max s.now beat) (Nat.le_max_left _ _) (by omega)).tasks
        (.writer .beat) rfl
      simp only [step, stepWriter, hwriter] at hbeats
      rw [if_neg (Nat.not_lt.mpr (Nat.le_max_right _ _))] at hbeats
      cases hbeats
    refine { h with early := Nat.lt_of_le_of_lt hearly hdue, keepsTime := ?_ }
    rw [hwriter]
    exact .idle (Nat.le_trans hbeat (Nat.add_le_add_right hlater _)) (.inl hdue)

theorem move (h : Lasts limits due begun s) (hsuits : Suits limits) (hmove : Move limits s s') :
    ∃ due' begun', Lasts limits due' begun' s' := by
  cases hmove with
  | @task a x hbreak hstep =>
      cases a with
      | writer w => exact ⟨due, h.writes hsuits hbreak hstep⟩
      | reader r =>
          obtain ⟨due', h'⟩ := h.reads hsuits hbreak hstep
          exact ⟨due', begun, h'⟩
      | coordinator r =>
          rw [step, stepCoordinator_eq_none h.serves.running h.noErrors r] at hstep
          cases hstep
  | answer hpongs hheard => exact ⟨due, begun, h.answer hpongs hheard⟩
  | aside haside houtside => exact ⟨due, begun, h.aside haside houtside⟩
  | pass hlater hquiet => exact ⟨due, begun, h.pass hlater hquiet⟩

end Lasts

theorem IsFresh.serves (h : IsFresh limits l) : Serves limits l := by
  obtain ⟨window, hsocket⟩ : ∃ window, l.socket = { window } := ⟨_, h.socket⟩
  exact {
    running := h.running
    isOpen := by rw [hsocket]
    sending := by rw [hsocket]
    window_pos := h.window_pos
    outbound_le := by rw [hsocket]; exact Nat.zero_le _
    inbound_le := by rw [hsocket]; exact Nat.zero_le _
    queue := h.queue
    fitting := h.fitting
    pongs := ⟨[], List.forall_mem_nil _, by rw [hsocket]; rfl⟩ }

theorem lasts_start {start : Nat} (hsuits : Suits limits)
    (hclock : start + limits.heartbeat.nanos < clockEnd) (id : UInt64) (ticket : Nat)
    (hfresh : IsFresh limits l) :
    Lasts limits (start + limits.timeout.nanos) []
      ⟨start, Connection.start limits id ticket start, l⟩ where
  serves := hfresh.serves
  noErrors := rfl
  reader := rfl
  early := hsuits.lt_add start
  wrote := by
    change Writer.starting.Wrote [] l.socket.outbound.bytes
    rw [hfresh.socket]
    exact .starting .nil
  keepsTime := .starting (Nat.add_lt_add_left hsuits.lt start) hclock

theorem exists_lasts_of_runs {start : Nat} (hsuits : Suits limits)
    (hclock : start + limits.heartbeat.nanos < clockEnd) {id : UInt64} {ticket : Nat}
    (hfresh : IsFresh limits l)
    (hruns : Runs limits ⟨start, Connection.start limits id ticket start, l⟩ s) :
    ∃ due begun, Lasts limits due begun s := by
  induction hruns with
  | refl => exact ⟨_, _, lasts_start hsuits hclock id ticket hfresh⟩
  | tail _ hmove ih =>
      obtain ⟨due, begun, h⟩ := ih
      exact h.move hsuits hmove

/-- A client that answers every heartbeat stays connected, if the heartbeats come in time for it
and can be written. -/
theorem staysConnected_of_suits {start : Nat} (hsuits : Suits limits)
    (hclock : start + limits.heartbeat.nanos < clockEnd) : StaysConnected limits start := by
  intro id ticket link s hfresh hruns
  obtain ⟨due, begun, h⟩ := exists_lasts_of_runs hsuits hclock hfresh hruns
  refine ⟨?_, h.serves.running⟩
  rw [h.reader]
  nofun

end HookRelay.Connection
