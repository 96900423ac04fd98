import HookRelay.Proofs.Connection.Turns
import HookRelay.Proofs.Intake
import HookRelay.Proofs.Wire.Framing
/-!
What the writer of a connection puts on its socket. The bytes there are always the
frames of the messages that it has begun to write, one after another, of which only
the last may not be whole. What it begins to write it has taken from the front of the
client's queue, save for the heartbeats.
-/

namespace HookRelay

open Wire

/-- What has been written, given what a writer does and the messages that it has begun
to write. A writer that has ended may have left the last ones out. -/
inductive Writer.Wrote : List Message → Writer → List UInt8 → Prop
  | starting {begun : List Message} {bs : List UInt8} :
      Framed begun bs → Wrote begun .starting bs
  | idle {begun : List Message} {beat : Nat} {bs : List UInt8} :
      Framed begun bs → Wrote begun (.idle beat) bs
  | writing {whole : List Message} {m : Message} {maxLen beat due : Nat}
      {bs part left : List UInt8} :
      Framed whole bs → left ≠ [] → encodeFrame m maxLen = .ok (part ++ left) →
      Wrote (whole ++ [m]) (.writing beat left due) (bs ++ part)
  | ended {begun whole : List Message} {bs part : List UInt8} :
      whole <+: begun → Framed whole bs → IsFragment part → Wrote begun .ended (bs ++ part)

namespace Writer.Wrote

variable {begun : List Message} {w : Writer} {bs : List UInt8}

theorem exists_framed (h : w.Wrote begun bs) :
    ∃ whole bs' part, whole <+: begun ∧ Framed whole bs' ∧ IsFragment part ∧
      bs = bs' ++ part := by
  cases h with
  | starting hframed | idle hframed =>
      exact ⟨begun, bs, [], List.prefix_rfl, hframed, isFragment_nil, (List.append_nil bs).symm⟩
  | writing hframed hleft hframe =>
      exact ⟨_, _, _, List.prefix_append _ _, hframed, ⟨_, _, _, hleft, hframe⟩, rfl⟩
  | ended hprefix hframed hpart => exact ⟨_, _, _, hprefix, hframed, hpart, rfl⟩

theorem received (h : w.Wrote begun bs) : (Wire.received bs).1 <+: begun := by
  obtain ⟨whole, bs', part, hprefix, hframed, hpart, rfl⟩ := h.exists_framed
  rwa [received_framed_append hframed hpart]

theorem received_idle {beat : Nat} (h : (Writer.idle beat).Wrote begun bs) :
    (Wire.received bs).1 = begun := by
  cases h with
  | idle hframed =>
      have hreceived := received_framed_append hframed isFragment_nil
      rwa [List.append_nil] at hreceived

theorem ending (h : w.Wrote begun bs) : Writer.ended.Wrote begun bs := by
  obtain ⟨whole, bs', part, hprefix, hframed, hpart, rfl⟩ := h.exists_framed
  exact .ended hprefix hframed hpart

theorem beginning {m : Message} {maxLen beat : Nat} {frame : List UInt8} (due beat' : Nat)
    (h : (Writer.idle beat).Wrote begun bs) (hframe : encodeFrame m maxLen = .ok frame) :
    (Writer.writing beat' frame due).Wrote (begun ++ [m]) bs := by
  cases h with
  | idle hframed =>
      have hwrote : Wrote (begun ++ [m]) (.writing beat' frame due) (bs ++ []) :=
        writing hframed (frame_ne_nil hframe) hframe
      rwa [List.append_nil] at hwrote

theorem put {beat due n : Nat} {left : List UInt8}
    (h : (Writer.writing beat left due).Wrote begun bs) :
    Wrote begun (if (left.drop n).isEmpty then .idle beat else .writing beat (left.drop n) due)
      (bs ++ left.take n) := by
  cases h with
  | writing hframed hleft hframe =>
      rw [List.append_assoc]
      rw [← List.take_append_drop n left, ← List.append_assoc] at hframe
      split
      · next hempty =>
        rw [List.isEmpty_iff.mp hempty, List.append_nil] at hframe
        exact .idle (hframed.concat hframe)
      · next hmore =>
        exact .writing hframed (by simpa using hmore) hframe

end Writer.Wrote

namespace Connection

/-- The message that a writer begins: one from the queue, or else a heartbeat. -/
def orPing (m : Option Message) : Message := m.getD .ping

/-- Between these two states of a connection the writer has begun `more` messages,
nothing for a heartbeat. It has taken them from the front of the queue; only by
dropping the queue can it lose any. -/
structure Writes (c : Connection) (l : Link) (more : List (Option Message)) (c' : Connection)
    (l' : Link) : Prop where
  wrote : ∀ begun, c.writer.Wrote begun l.socket.outbound.bytes →
    c'.writer.Wrote (begun ++ more.map orPing) l'.socket.outbound.bytes
  inbox : more.reduceOption = [] ∧ l'.inbox.receiver = .gone ∧ l'.inbox.items = [] ∨
    l'.inbox.receiver = l.inbox.receiver ∧
      more.reduceOption ++ l'.inbox.items = l.inbox.items

variable {limits : Limits} {now beat : Nat} {c c' : Connection} {l l' : Link}

theorem Writes.of_eq (hwriter : c'.writer = c.writer)
    (hsocket : l'.socket.outbound = l.socket.outbound) (hinbox : l'.inbox = l.inbox) :
    Writes c l [] c' l' where
  wrote begun h := by rwa [hwriter, hsocket, List.map_nil, List.append_nil]
  inbox := .inr ⟨by rw [hinbox], by rw [hinbox]; rfl⟩

theorem endWriter_writes (e : Option ConnectionError)
    (hsocket : l'.socket.outbound.bytes = l.socket.outbound.bytes) :
    Writes c l [] (endWriter e c l').1 (endWriter e c l').2 where
  wrote begun h := by
    rw [List.map_nil, List.append_nil]
    change Writer.ended.Wrote begun l'.socket.outbound.bytes
    rw [hsocket]
    exact h.ending
  inbox := .inl ⟨rfl, rfl, rfl⟩

theorem beginFrame_writes {m : Option Message} (beat' : Nat) (h : c.writer = .idle beat)
    (hsocket : l'.socket = l.socket) (hreceiver : l'.inbox.receiver = l.inbox.receiver)
    (hitems : m.toList ++ l'.inbox.items = l.inbox.items) :
    ∃ more, Writes c l more (beginFrame limits now beat' (orPing m) c l').1
      (beginFrame limits now beat' (orPing m) c l').2 := by
  rw [beginFrame]
  split
  · exact ⟨[], endWriter_writes _ (by rw [hsocket])⟩
  · next frame hframe =>
    refine ⟨[m], fun begun hwrote => ?_, .inr ⟨hreceiver, ?_⟩⟩
    · rw [h] at hwrote
      change Writer.Wrote _ _ l'.socket.outbound.bytes
      rw [hsocket]
      exact hwrote.beginning _ _ hframe
    · cases m <;> exact hitems

theorem putBytes_writes {n due : Nat} {left : List UInt8} (h : c.writer = .writing beat left due) :
    Writes c l [] (putBytes n beat due left c l).1 (putBytes n beat due left c l).2 := by
  refine ⟨fun begun hwrote => ?_, .inr ⟨rfl, rfl⟩⟩
  rw [h] at hwrote
  rw [List.map_nil, List.append_nil]
  exact hwrote.put

theorem stepWriter_writes {s : WriterStep} {x : Connection × Link}
    (h : stepWriter limits now s c l = some x) : ∃ more, Writes c l more x.1 x.2 := by
  cases writerTurn_of_step h with
  | starts beat hstarting =>
      refine ⟨[], fun begun hwrote => ?_, .inr ⟨rfl, rfl⟩⟩
      rw [hstarting] at hwrote
      cases hwrote with
      | starting hframed =>
          rw [List.map_nil, List.append_nil]
          exact .idle hframed
  | @takes beat m inbox hidle htake =>
      obtain ⟨hitems, hinbox⟩ := Mailbox.take_eq_item_iff.mp htake
      have hreceiver : inbox.receiver = l.inbox.receiver := by rw [hinbox]
      exact beginFrame_writes (m := some m) beat hidle rfl hreceiver hitems.symm
  | beats hidle => exact beginFrame_writes (m := none) _ hidle rfl rfl rfl
  | puts hwriting => exact ⟨[], putBytes_writes hwriting⟩
  | failsToStart | stops | forgotten | losesClient | expires | breaks =>
      exact ⟨[], endWriter_writes _ rfl⟩

theorem endReader_writes (e : Option ConnectionError) (hsocket : l'.socket.outbound =
    l.socket.outbound) (hinbox : l'.inbox = l.inbox) :
    Writes c l [] (endReader e c l').1 (endReader e c l').2 :=
  .of_eq rfl hsocket hinbox

theorem stepReader_writes {s : ReaderStep} {x : Connection × Link}
    (h : stepReader limits now s c l = some x) : Writes c l [] x.1 x.2 := by
  cases readerTurn_of_step h with
  | pong | hears | putsIn | standsInLine | resumes => exact .of_eq rfl rfl rfl
  | stops | undecodable | oversized | streamEnds | expires | refused | losesPlace | breaks =>
      exact endReader_writes _ rfl rfl

theorem stepCoordinator_writes {s : CoordinatorStep} {x : Connection × Link}
    (h : stepCoordinator s c l = some x) : Writes c l [] x.1 x.2 := by
  unfold stepCoordinator at h
  repeat' split at h
  all_goals cases h
  all_goals exact .of_eq rfl rfl rfl

theorem step_writes {a : Action} {x : Connection × Link} (h : step limits now a c l = some x) :
    ∃ more, Writes c l more x.1 x.2 := by
  cases a with
  | writer s => exact stepWriter_writes h
  | reader s => exact ⟨[], stepReader_writes h⟩
  | coordinator s => exact ⟨[], stepCoordinator_writes h⟩

end Connection

end HookRelay
