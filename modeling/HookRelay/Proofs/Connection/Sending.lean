import Mathlib.Data.List.ReduceOption
import HookRelay.Proofs.Connection.Writing
import HookRelay.Proofs.Connection.Surroundings

namespace HookRelay

open Wire

/-- Bytes that are frames of these messages, one after another, and what is missing of the
last frame. -/
inductive Wire.Sent : List Message → List UInt8 → List UInt8 → Prop
  | whole {ms : List Message} {bs : List UInt8} : Framed ms bs → Sent ms bs []
  | part {ms : List Message} {m : Message} {maxLen : Nat} {bs part left : List UInt8} :
      Framed ms bs → left ≠ [] → encodeFrame m maxLen = .ok (part ++ left) →
      Sent (ms ++ [m]) (bs ++ part) left

namespace Wire.Sent

variable {ms : List Message} {bs left : List UInt8}

theorem framed (h : Sent ms bs []) : Framed ms bs := by
  generalize hleft : ([] : List UInt8) = left at h
  cases h with
  | whole hframed => exact hframed
  | part _ hne _ => exact absurd hleft.symm hne

theorem begin {m : Message} {maxLen : Nat} {frame : List UInt8} (h : Sent ms bs [])
    (hframe : encodeFrame m maxLen = .ok frame) : Sent (ms ++ [m]) bs frame := by
  have hsent : Sent (ms ++ [m]) (bs ++ []) frame :=
    .part h.framed (frame_ne_nil hframe) (by rwa [List.nil_append])
  rwa [List.append_nil] at hsent

theorem put (n : Nat) (h : Sent ms bs left) : Sent ms (bs ++ left.take n) (left.drop n) := by
  cases h with
  | whole hframed =>
      rw [List.take_nil, List.drop_nil, List.append_nil]
      exact .whole hframed
  | part hframed hne hframe =>
      rw [← List.take_append_drop n left, ← List.append_assoc] at hframe
      rw [List.append_assoc]
      by_cases hdrop : left.drop n = []
      · rw [hdrop, List.append_nil] at hframe
        rw [hdrop]
        exact .whole (hframed.concat hframe)
      · exact .part hframed hdrop hframe

end Wire.Sent

/-- What a writer has left to write of the frame in its hand. -/
def Writer.left : Writer → List UInt8
  | .writing _ left _ => left
  | _ => []

namespace Connection

/-- What a writer turns to at a step: a message out of the queue, or else a heartbeat. -/
def turnsTo (s : WriterStep) (l : Link) : Option (Option Message) :=
  match s with
  | .take =>
    match l.inbox.take.1 with
    | .item m => some (some m)
    | _ => none
  | .beat => some none
  | _ => none

/-- Whether the frame of a message may be written. -/
def fits (limits : Limits) (m : Option Message) : Bool :=
  (encode (orPing m)).length ≤ limits.maxFrameLen ∧ (encode (orPing m)).length ≤ maxPayload

/-- The message whose frame the writer begins, nothing for a heartbeat. -/
def beginning (limits : Limits) (h : Happening) (s : Connection × Link) : List (Option Message) :=
  match h with
  | .step _ (.writer w) => (turnsTo w s.2).toList.filter (fits limits)
  | _ => []

def begun (limits : Limits) : List Happening → Connection × Link → List (Option Message) :=
  Steps.seen (happen limits) (beginning limits)

/-- The message that comes into the client's queue. -/
def queuing (h : Happening) (s : Connection × Link) : List Message :=
  match h with
  | .around (.queue m) => if (s.2.inbox.offer m).1 = .accepted then [m] else []
  | _ => []

def queued (limits : Limits) : List Happening → Connection × Link → List Message :=
  Steps.seen (happen limits) queuing

/-- The client's queue has held `queue` in all, and the frames of `begun` have been begun. -/
structure Sends (limits : Limits) (queue : List Message) (begun : List (Option Message))
    (c : Connection) (l : Link) : Prop where
  sent : ∃ left, Sent (begun.map orPing) l.socket.outbound.bytes left ∧
    (c.writer ≠ .ended → left = c.writer.left)
  fits : ∀ m ∈ begun, fits limits m = true
  front : begun.reduceOption <+: queue
  inbox : c.writer ≠ .ended → l.inbox.receiver = .listening ∧
    begun.reduceOption ++ l.inbox.items = queue

variable {limits : Limits} {now : Nat} {c c' : Connection} {l l' : Link} {x : Connection × Link}

/-- The writer has done nothing, and nobody has touched the queue. -/
structure Leaves (c : Connection) (l : Link) (c' : Connection) (l' : Link) : Prop where
  writer : c'.writer = c.writer
  bytes : l'.socket.outbound.bytes = l.socket.outbound.bytes
  receiver : l'.inbox.receiver = l.inbox.receiver
  items : l'.inbox.items = l.inbox.items

theorem stepReader_leaves {s : ReaderStep} (h : stepReader limits now s c l = some x) :
    Leaves c l x.1 x.2 := by
  cases readerTurn_of_step h <;> exact ⟨rfl, rfl, rfl, rfl⟩

theorem stepCoordinator_leaves {s : CoordinatorStep} (h : stepCoordinator s c l = some x) :
    Leaves c l x.1 x.2 := by
  unfold stepCoordinator at h
  repeat' split at h
  all_goals cases h
  all_goals exact ⟨rfl, rfl, rfl, rfl⟩

theorem outside_leaves {ticket : Nat} {o : Around} (ho : ∀ m, o ≠ .queue m)
    (h : outside ticket o l = some l') : Leaves c l c l' := by
  cases o with
  | queue m => exact absurd rfl (ho m)
  | send | bring | leave =>
      simp only [outside] at h
      split at h <;> cases h
      exact ⟨rfl, rfl, rfl, rfl⟩
  | letIn =>
      obtain ⟨⟨t, intake⟩, -, rfl⟩ := Option.map_eq_some_iff.mp h
      exact ⟨rfl, rfl, rfl, rfl⟩
  | halfClose | close | receive | closeQueue | stop | take | closeIntake | addSender | dropSender
  | note =>
      cases h
      exact ⟨rfl, rfl, rfl, rfl⟩

theorem fits_iff {m : Option Message} :
    fits limits m = true ↔ ∃ frame, encodeFrame (orPing m) limits.maxFrameLen = .ok frame := by
  rw [fits, decide_eq_true_eq]
  constructor
  · rintro ⟨hmax, hpayload⟩
    exact ⟨_, encodeFrame_eq_ok_iff.mpr ⟨hmax, hpayload, rfl⟩⟩
  · rintro ⟨frame, hframe⟩
    obtain ⟨hmax, hpayload, -⟩ := encodeFrame_eq_ok_iff.mp hframe
    exact ⟨hmax, hpayload⟩

theorem turnsTo_take {m : Message} {inbox : Mailbox Message}
    (h : l.inbox.take = (.item m, inbox)) : turnsTo .take l = some (some m) := by
  rw [turnsTo, h]

theorem turnsTo_disconnected {inbox : Mailbox Message}
    (h : l.inbox.take = (.disconnected, inbox)) : turnsTo .take l = none := by
  rw [turnsTo, h]

namespace Sends

variable {queue more : List Message} {begun : List (Option Message)}

theorem start {id : UInt64} {ticket : Nat} (hbytes : l.socket.outbound.bytes = [])
    (hreceiver : l.inbox.receiver = .listening) :
    Sends limits l.inbox.items [] (Connection.start limits id ticket now) l where
  sent := by
    refine ⟨[], ?_, fun _ => rfl⟩
    rw [hbytes]
    exact .whole .nil
  fits := nofun
  front := List.nil_prefix
  inbox _ := ⟨hreceiver, rfl⟩

theorem of_eq (h : Sends limits queue begun c l) (hwriter : c'.writer = c.writer)
    (hbytes : l'.socket.outbound.bytes = l.socket.outbound.bytes)
    (hinbox : c.writer ≠ .ended → l.inbox.receiver = .listening →
      l'.inbox.receiver = .listening ∧ l'.inbox.items = l.inbox.items ++ more) :
    Sends limits (queue ++ more) begun c' l' where
  sent := by
    rw [hbytes, hwriter]
    exact h.sent
  fits := h.fits
  front := h.front.trans (List.prefix_append _ _)
  inbox hrunning := by
    rw [hwriter] at hrunning
    obtain ⟨hreceiver, hitems⟩ := h.inbox hrunning
    obtain ⟨hreceiver', hitems'⟩ := hinbox hrunning hreceiver
    refine ⟨hreceiver', ?_⟩
    rw [hitems', ← List.append_assoc, hitems]

theorem endWriter (h : Sends limits queue begun c l) (e : Option ConnectionError)
    (hbytes : l'.socket.outbound.bytes = l.socket.outbound.bytes) :
    Sends limits queue begun (endWriter e c l').1 (endWriter e c l').2 where
  sent := by
    obtain ⟨left, hsent, -⟩ := h.sent
    refine ⟨left, ?_, fun hrunning => absurd rfl hrunning⟩
    change Sent _ l'.socket.outbound.bytes left
    rwa [hbytes]
  fits := h.fits
  front := h.front
  inbox hrunning := absurd rfl hrunning

theorem beginFrame {beat : Nat} {m : Option Message} (h : Sends limits queue begun c l)
    (beat' : Nat) (hidle : c.writer = .idle beat) (hsocket : l'.socket = l.socket)
    (hreceiver : l'.inbox.receiver = l.inbox.receiver)
    (hitems : l.inbox.items = m.toList ++ l'.inbox.items) :
    Sends limits queue (begun ++ [m].filter (Connection.fits limits))
      (beginFrame limits now beat' (orPing m) c l').1
      (beginFrame limits now beat' (orPing m) c l').2 := by
  have hrunning : c.writer ≠ .ended := by simp [hidle]
  obtain ⟨left, hsent, hleft⟩ := h.sent
  obtain ⟨hlistening, hqueue⟩ := h.inbox hrunning
  rw [hleft hrunning, hidle] at hsent
  unfold Connection.beginFrame
  split
  · next e hframe =>
    have hunfit : ¬ Connection.fits limits m = true := by
      rw [fits_iff, hframe]
      rintro ⟨frame, hframe⟩
      cases hframe
    rw [List.filter_cons_of_neg hunfit, List.filter_nil, List.append_nil]
    exact h.endWriter _ (by rw [hsocket])
  · next frame hframe =>
    have hfits : Connection.fits limits m = true := fits_iff.mpr ⟨frame, hframe⟩
    rw [List.filter_cons_of_pos hfits, List.filter_nil]
    have hreduced : (begun ++ [m]).reduceOption ++ l'.inbox.items = queue := by
      rw [List.reduceOption_append, List.reduceOption_singleton, List.append_assoc, ← hitems,
        hqueue]
    constructor
    · refine ⟨frame, ?_, fun _ => rfl⟩
      change Sent _ l'.socket.outbound.bytes frame
      rw [hsocket, List.map_append]
      exact hsent.begin hframe
    · intro m' hm'
      rcases List.mem_append.mp hm' with hm' | hm'
      · exact h.fits m' hm'
      · rwa [List.mem_singleton.mp hm']
    · exact ⟨_, hreduced⟩
    · intro _
      exact ⟨hreceiver.trans hlistening, hreduced⟩

theorem putBytes {n beat due : Nat} {left : List UInt8} (h : Sends limits queue begun c l)
    (hwriting : c.writer = .writing beat left due) :
    Sends limits queue begun (putBytes n beat due left c l).1 (putBytes n beat due left c l).2 where
  sent := by
    obtain ⟨left', hsent, hleft⟩ := h.sent
    have hrunning : c.writer ≠ .ended := by simp [hwriting]
    obtain rfl : left' = left := by rw [hleft hrunning, hwriting]; rfl
    refine ⟨left'.drop n, hsent.put n, fun _ => ?_⟩
    change left'.drop n = Writer.left (if _ then _ else _)
    split
    · next hempty => exact List.isEmpty_iff.mp hempty
    · rfl
  fits := h.fits
  front := h.front
  inbox _ := h.inbox (by simp [hwriting])

theorem writerTurn {w : WriterStep} (h : Sends limits queue begun c l)
    (hturn : WriterTurn limits now c l w x) :
    Sends limits queue (begun ++ (turnsTo w l).toList.filter (Connection.fits limits))
      x.1 x.2 := by
  have hnothing : ∀ {c' : Connection} {l' : Link}, Sends limits queue begun c' l' →
      Sends limits queue (begun ++ []) c' l' := by
    intro c' l' h'
    rwa [List.append_nil]
  cases hturn with
  | starts beat hstarting =>
      have hrunning : c.writer ≠ .ended := by simp [hstarting]
      apply hnothing
      constructor
      · obtain ⟨left, hsent, hleft⟩ := h.sent
        refine ⟨left, hsent, fun _ => ?_⟩
        rw [hleft hrunning, hstarting]
        rfl
      · exact h.fits
      · exact h.front
      · exact fun _ => h.inbox hrunning
  | takes hidle htake =>
      obtain ⟨hitems, hinbox⟩ := Mailbox.take_eq_item_iff.mp htake
      rw [turnsTo_take htake]
      exact h.beginFrame (m := some _) _ hidle rfl (by rw [hinbox]) hitems
  | beats hidle => exact h.beginFrame (m := none) _ hidle rfl rfl rfl
  | forgotten _ htake =>
      rw [turnsTo_disconnected htake]
      exact hnothing (h.endWriter _ rfl)
  | puts hwriting => exact hnothing (h.putBytes hwriting)
  | failsToStart | stops | losesClient | expires | breaks =>
      exact hnothing (h.endWriter _ rfl)

theorem leaves (h : Sends limits queue begun c l) (hleaves : Leaves c l c' l') :
    Sends limits (queue ++ []) (begun ++ []) c' l' := by
  rw [List.append_nil begun]
  apply h.of_eq hleaves.writer hleaves.bytes
  intro _ hlistening
  rw [hleaves.items, List.append_nil]
  exact ⟨hleaves.receiver.trans hlistening, rfl⟩

theorem step {a : Action} (h : Sends limits queue begun c l)
    (hstep : Connection.step limits now a c l = some x) :
    Sends limits (queue ++ queuing (.step now a) (c, l))
      (begun ++ beginning limits (.step now a) (c, l)) x.1 x.2 := by
  cases a with
  | writer w =>
      have hsends := h.writerTurn (writerTurn_of_step hstep)
      rw [← List.append_nil queue] at hsends
      exact hsends
  | reader r => exact h.leaves (stepReader_leaves hstep)
  | coordinator s => exact h.leaves (stepCoordinator_leaves hstep)

theorem offer (h : Sends limits queue begun c l) (m : Message) :
    Sends limits (queue ++ queuing (.around (.queue m)) (c, l)) begun c
      { l with inbox := (l.inbox.offer m).2 } := by
  refine h.of_eq rfl rfl fun _ hlistening => ?_
  by_cases hroom : l.inbox.hasRoom = true
  · simp [queuing, Mailbox.offer, Mailbox.isListening, hlistening, hroom]
  · simp [queuing, Mailbox.offer, Mailbox.isListening, hlistening, hroom]

theorem outside {o : Around} (h : Sends limits queue begun c l)
    (houtside : Connection.outside c.ticket o l = some l') :
    Sends limits (queue ++ queuing (.around o) (c, l)) (begun ++ []) c l' := by
  cases o with
  | queue m =>
      cases houtside
      rw [List.append_nil]
      exact h.offer m
  | _ => exact h.leaves (outside_leaves (fun _ ho => by cases ho) houtside)

theorem happen {h : Happening} {s s' : Connection × Link} (hs : Sends limits queue begun s.1 s.2)
    (hhappen : Connection.happen limits h s = some s') :
    Sends limits (queue ++ queuing h s) (begun ++ beginning limits h s) s'.1 s'.2 := by
  cases h with
  | step now a => exact hs.step hhappen
  | around o =>
      obtain ⟨l', houtside, rfl⟩ := Option.map_eq_some_iff.mp hhappen
      exact hs.outside houtside

theorem run {hs : List Happening} {s : Connection × Link} {id : UInt64} {ticket : Nat}
    (hbytes : l.socket.outbound.bytes = []) (hreceiver : l.inbox.receiver = .listening)
    (hrun : Connection.run limits hs (Connection.start limits id ticket now, l) = some s) :
    Sends limits (l.inbox.items ++ queued limits hs (Connection.start limits id ticket now, l))
      (Connection.begun limits hs (Connection.start limits id ticket now, l)) s.1 s.2 := by
  refine Steps.run_induction (P := fun hs s =>
    Sends limits (l.inbox.items ++ queued limits hs (Connection.start limits id ticket now, l))
      (Connection.begun limits hs (Connection.start limits id ticket now, l)) s.1 s.2) ?_ ?_ hrun
  · have hstart : Sends limits l.inbox.items [] (Connection.start limits id ticket now) l :=
      Sends.start hbytes hreceiver
    rw [← List.append_nil l.inbox.items] at hstart
    exact hstart
  · intro hs h s s' hrun ih hhappen
    rw [queued, Connection.begun, Steps.seen_concat hrun hhappen, Steps.seen_concat hrun hhappen,
      ← List.append_assoc]
    exact ih.happen hhappen

theorem flushed {beat : Nat} {inbox : Mailbox Message} (h : Sends limits queue begun c l)
    (hidle : c.writer = .idle beat) (htake : l.inbox.take = (.disconnected, inbox)) :
    l.inbox.senders = 0 ∧ begun.reduceOption = queue ∧
      Framed (begun.map orPing) l.socket.outbound.bytes := by
  have hrunning : c.writer ≠ .ended := by simp [hidle]
  obtain ⟨hlistening, hqueue⟩ := h.inbox hrunning
  obtain ⟨left, hsent, hleft⟩ := h.sent
  rw [hleft hrunning, hidle] at hsent
  unfold Mailbox.take at htake
  split at htake
  · cases htake
  · next hitems =>
    split at htake
    · next hover =>
      rw [Mailbox.isOver, Mailbox.isListening, hlistening] at hover
      rw [hitems, List.append_nil] at hqueue
      exact ⟨by simpa using hover, hqueue, hsent.framed⟩
    · cases htake

end Sends

theorem ended_happen {h : Happening} {s s' : Connection × Link} (hended : s.1.writer = .ended)
    (hhappen : happen limits h s = some s') :
    s'.1.writer = .ended ∧ s'.2.socket.outbound.bytes = s.2.socket.outbound.bytes := by
  have hof : Leaves s.1 s.2 s'.1 s'.2 →
      s'.1.writer = .ended ∧ s'.2.socket.outbound.bytes = s.2.socket.outbound.bytes :=
    fun hleaves => ⟨hleaves.writer.trans hended, hleaves.bytes⟩
  cases h with
  | step now a =>
      cases a with
      | writer w => exact absurd hended (writerTurn_of_step hhappen).running
      | reader r => exact hof (stepReader_leaves hhappen)
      | coordinator r => exact hof (stepCoordinator_leaves hhappen)
  | around o =>
      obtain ⟨l', houtside, rfl⟩ := Option.map_eq_some_iff.mp hhappen
      cases o with
      | queue m =>
          cases houtside
          exact ⟨hended, rfl⟩
      | _ => exact hof (outside_leaves (fun _ ho => by cases ho) houtside)

theorem ended_run {hs : List Happening} {s s' : Connection × Link} (hended : s.1.writer = .ended)
    (hrun : run limits hs s = some s') :
    s'.1.writer = .ended ∧ s'.2.socket.outbound.bytes = s.2.socket.outbound.bytes := by
  refine Steps.run_induction (P := fun _ s' => s'.1.writer = .ended ∧
    s'.2.socket.outbound.bytes = s.2.socket.outbound.bytes) ⟨hended, rfl⟩ ?_ hrun
  intro hs h s₁ s₂ _ ih hhappen
  obtain ⟨hended', hbytes⟩ := ended_happen ih.1 hhappen
  exact ⟨hended', hbytes.trans ih.2⟩

end Connection

end HookRelay
