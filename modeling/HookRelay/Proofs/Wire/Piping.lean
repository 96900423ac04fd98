import HookRelay.Proofs.Wire.Arriving
import HookRelay.Proofs.Wire.Framing
import HookRelay.Wire.Pipe

namespace HookRelay.Wire.Pipe

/-- What a write of a message puts into the pipe, by its answer. -/
inductive Contributes (maxLen : Nat) (limit : Duration) (m : Message) :
    Except FrameError Unit → List UInt8 → Prop
  | whole {frame : List UInt8} : encodeFrame m maxLen = .ok frame →
      Contributes maxLen limit m (.ok ()) frame
  | nothing {len max : Nat} : encodeFrame m maxLen = .error (.tooLong len max) →
      Contributes maxLen limit m (.error (.tooLong len max)) []
  | part {part left : List UInt8} {e : FrameError} : encodeFrame m maxLen = .ok (part ++ left) →
      left ≠ [] → e = .deadline limit ∨ e = .stream .brokenPipe →
      Contributes maxLen limit m (.error e) part

/-- What writes of messages put into the pipe, one after another. -/
inductive Contributed (maxLen : Nat) (limit : Duration) :
    List Message → List (Except FrameError Unit) → List UInt8 → Prop
  | nil : Contributed maxLen limit [] [] []
  | cons {m : Message} {messages : List Message} {answer : Except FrameError Unit}
      {answers : List (Except FrameError Unit)} {part bytes : List UInt8} :
      Contributes maxLen limit m answer part → Contributed maxLen limit messages answers bytes →
      Contributed maxLen limit (m :: messages) (answer :: answers) (part ++ bytes)

/-- Where the bytes are that were written: with the reading end or still in the pipe, unless the
pipe was closed over them. -/
structure Carries (p : Pipe) (sent : List UInt8) : Prop where
  whole : p.closed = false → p.taken ++ p.content = sent
  part : p.taken <+: sent

/-- Whether the reading end is there and does not close. -/
structure Listens (p : Pipe) : Prop where
  isOpen : p.closed = false
  never : .close ∉ p.script

/-- From one pipe to a later one, these bytes are put behind the others, and no byte is lost but
by a close. -/
structure Puts (p : Pipe) (bytes : List UInt8) (q : Pipe) : Prop where
  carries : ∀ {sent}, p.Carries sent → q.Carries (sent ++ bytes)
  listens : p.Listens → q.Listens

variable {p q r : Pipe} {sent bytes bytes' left : List UInt8} {script : List PeerStep}
  {limit : Duration} {deadline ms maxLen : Nat} {m : Message}

theorem Puts.trans (h : Puts p bytes q) (h' : Puts q bytes' r) : Puts p (bytes ++ bytes') r where
  carries hp := by
    rw [← List.append_assoc]
    exact h'.carries (h.carries hp)
  listens hp := h'.listens (h.listens hp)

theorem puts_of_later (now : Nat) (hscript : .close ∉ p.script → .close ∉ script) :
    Puts p [] { p with now, script } where
  carries hp := by
    rw [List.append_nil]
    exact ⟨hp.whole, hp.part⟩
  listens hp := ⟨hp.isOpen, hscript hp.never⟩

theorem puts_nil (p : Pipe) : Puts p [] p :=
  puts_of_later p.now id

theorem puts_content (p : Pipe) (bytes : List UInt8) :
    Puts p bytes { p with content := p.content ++ bytes } where
  carries hp := by
    refine ⟨fun hopen => ?_, hp.part.trans (List.prefix_append _ _)⟩
    simp only
    rw [← List.append_assoc, hp.whole hopen]
  listens hp := ⟨hp.isOpen, hp.never⟩

theorem act_whole (content taken : List UInt8) (script : List PeerStep)
    (hopen : (act content taken script).2.2.1 = false) :
    (act content taken script).2.1 ++ (act content taken script).1 = taken ++ content := by
  fun_induction act content taken script with
  | case1 | case5 => rfl
  | case2 content taken n script got _ ih => rw [ih hopen, List.append_assoc, List.take_append_drop]
  | case3 content taken n script got hgot =>
      have hall : content.length ≤ n := by
        rw [List.length_take] at hgot
        omega
      simp only [got, List.append_nil, List.take_of_length_le hall]
  | case4 content taken script ih => exact ih hopen
  | case6 => cases hopen

theorem act_part (content taken : List UInt8) (script : List PeerStep) :
    (act content taken script).2.1 <+: taken ++ content := by
  fun_induction act content taken script with
  | case1 | case5 | case6 => exact List.prefix_append _ _
  | case2 content taken n script got _ ih =>
      rwa [List.append_assoc, List.take_append_drop] at ih
  | case3 content taken n => exact (List.prefix_append_right_inj taken).mpr (List.take_prefix n _)
  | case4 content taken script ih => exact ih

theorem act_never (content taken : List UInt8) (hnever : .close ∉ script) :
    (act content taken script).2.2.1 = false ∧ .close ∉ (act content taken script).2.2.2 := by
  fun_induction act content taken script with
  | case1 => exact ⟨rfl, hnever⟩
  | case2 _ _ _ _ _ _ ih | case4 _ _ _ ih => exact ih (List.not_mem_of_not_mem_cons hnever)
  | case3 => exact ⟨rfl, by simpa using hnever⟩
  | case5 => exact ⟨rfl, hnever⟩
  | case6 => exact absurd List.mem_cons_self hnever

theorem puts_runPeer (hopen : p.closed = false) : Puts p [] p.runPeer where
  carries hp := by
    rw [List.append_nil, ← hp.whole hopen]
    exact ⟨act_whole p.content p.taken p.script, act_part p.content p.taken p.script⟩
  listens hp :=
    have h := act_never p.content p.taken hp.never
    ⟨h.1, h.2⟩

theorem closed_of_not_ready (h : ¬ p.ready = true) : p.closed = false := by
  cases hclosed : p.closed with
  | false => rfl
  | true => exact absurd (by rw [ready, hclosed]; rfl) h

theorem puts_awaitPause (deadline : Nat) (hopen : p.closed = false) (script : List PeerStep) :
    Puts { p with script } [] (awaitPause deadline p script) := by
  have htail {step : PeerStep} {script : List PeerStep} :=
    @List.not_mem_of_not_mem_cons PeerStep .close step script
  fun_induction awaitPause deadline p script with
  | case1 p ms script hin q hready =>
      exact (puts_of_later (p := { p with script := .pause ms :: script }) (p.now + ms) htail).trans
        (puts_runPeer hopen)
  | case2 p ms script hin q hready ih =>
      exact (puts_of_later (p := { p with script := .pause ms :: script }) (p.now + ms) htail).trans
        (ih hopen)
  | case3 p ms script hlate => exact puts_of_later _ (by simp)
  | case4 p script ih =>
      exact (puts_of_later (p := { p with script := .read 0 :: script }) p.now htail).trans
        (ih hopen)
  | case5 p script => exact puts_of_later _ id

theorem puts_await (deadline : Nat) (hopen : p.closed = false) : Puts p [] (p.await deadline) := by
  unfold await
  simp only
  split
  · exact puts_runPeer hopen
  · next hready =>
      exact (puts_runPeer hopen).trans (puts_awaitPause deadline (closed_of_not_ready hready) _)

/-- What the answer to a push says about the bytes that were not put. -/
inductive Leaves (limit : Duration) : Except FrameError Unit → List UInt8 → Prop
  | none : Leaves limit (.ok ()) []
  | some {left : List UInt8} {e : FrameError} : left ≠ [] →
      e = .deadline limit ∨ e = .stream .brokenPipe → Leaves limit (.error e) left

theorem exists_puts_push (limit : Duration) (deadline : Nat) (p : Pipe) (left : List UInt8) :
    ∃ part left', left = part ++ left' ∧ Puts p part (push limit deadline p left).2 ∧
      Leaves limit (push limit deadline p left).1 left' := by
  fun_induction push limit deadline p left with
  | case1 p => exact ⟨[], [], rfl, puts_nil p, .none⟩
  | case2 p left hleft hclosed => exact ⟨[], left, rfl, puts_nil p, .some hleft (.inr rfl)⟩
  | case3 p left hleft hopen hroom ih =>
      obtain ⟨part, left', hcut, hputs, hleaves⟩ := ih
      refine ⟨left.take p.room ++ part, left', ?_, (puts_content p _).trans hputs, hleaves⟩
      rw [List.append_assoc, ← hcut, List.take_append_drop]
  | case4 p left hleft hopen hroom hlate =>
      exact ⟨[], left, rfl, puts_nil p, .some hleft (.inl rfl)⟩
  | case5 p left hleft hopen hroom hlate q hclosed =>
      exact ⟨[], left, rfl, puts_await deadline (Bool.not_eq_true _ ▸ hopen),
        .some hleft (.inr rfl)⟩
  | case6 p left hleft hopen hroom hlate q hclosed hroom' ih =>
      obtain ⟨part, left', hcut, hputs, hleaves⟩ := ih
      have hq : Puts p [] q := puts_await deadline (Bool.not_eq_true _ ▸ hopen)
      refine ⟨left.take q.room ++ part, left', ?_, (hq.trans (puts_content q _)).trans hputs,
        hleaves⟩
      rw [List.append_assoc, ← hcut, List.take_append_drop]
  | case7 p left hleft hopen hroom hlate q hclosed hroom' =>
      exact ⟨[], left, rfl, puts_await deadline (Bool.not_eq_true _ ▸ hopen),
        .some hleft (.inl rfl)⟩

theorem exists_puts_write (ms maxLen : Nat) (m : Message) (p : Pipe) :
    ∃ part, Contributes maxLen (.ofMillis ms) m (p.write ms maxLen m).1 part ∧
      Puts p part (p.write ms maxLen m).2 := by
  unfold write
  split
  · next e he =>
      refine ⟨[], ?_, puts_nil p⟩
      have htooLong : e = .tooLong (encode m).length maxLen := by
        unfold encodeFrame at he
        simp only at he
        split at he
        · exact (Except.error.inj he).symm
        · cases he
      subst htooLong
      exact .nothing he
  · next frame hframe =>
      obtain ⟨part, left, rfl, hputs, hleaves⟩ :=
        exists_puts_push (.ofMillis ms) (p.now + ms) p frame
      refine ⟨part, ?_, hputs⟩
      generalize (push (.ofMillis ms) (p.now + ms) p (part ++ left)).1 = answer at hleaves
      cases hleaves with
      | none => exact .whole (by rwa [List.append_nil] at hframe)
      | some hleft he => exact .part hframe hleft he

theorem exists_puts_writeMany (ms maxLen : Nat) (messages : List Message) (p : Pipe) :
    ∃ bytes, Contributed maxLen (.ofMillis ms) messages
        ((writeMany ms maxLen messages p).1.map Prod.fst) bytes ∧
      Puts p bytes (writeMany ms maxLen messages p).2 := by
  induction messages generalizing p with
  | nil => exact ⟨[], .nil, puts_nil p⟩
  | cons m messages ih =>
      obtain ⟨part, hpart, hfirst⟩ := exists_puts_write ms maxLen m p
      obtain ⟨bytes, hbytes, hrest⟩ := ih (p.write ms maxLen m).2
      exact ⟨part ++ bytes, .cons hpart hbytes, hfirst.trans hrest⟩

theorem drain_part (content taken : List UInt8) (script : List PeerStep) :
    drain content taken script <+: taken ++ content := by
  fun_induction drain content taken script with
  | case1 content taken n script hn ih =>
      rwa [List.append_assoc, List.take_append_drop] at ih
  | case2 | case5 => exact List.prefix_refl _
  | case3 content taken ms script ih => exact ih
  | case4 => exact List.prefix_append _ _

theorem drain_eq (content taken : List UInt8) (hnever : .close ∉ script) :
    drain content taken script = taken ++ content := by
  fun_induction drain content taken script with
  | case1 content taken n script hn ih =>
      rw [ih (List.not_mem_of_not_mem_cons hnever), List.append_assoc, List.take_append_drop]
  | case2 | case5 => rfl
  | case3 content taken ms script ih => exact ih (List.not_mem_of_not_mem_cons hnever)
  | case4 => exact absurd List.mem_cons_self hnever

theorem Carries.received_prefix (h : p.Carries sent) : p.received <+: sent := by
  unfold received
  split
  · exact h.part
  · next hopen =>
      rw [← h.whole (Bool.not_eq_true _ ▸ hopen)]
      exact drain_part ..

theorem Carries.received_eq (h : p.Carries sent) (hlistens : p.Listens) : p.received = sent := by
  rw [received, if_neg (by rw [hlistens.isOpen]; nofun), drain_eq _ _ hlistens.never]
  exact h.whole hlistens.isOpen

theorem readFront_frame {frame rest : List UInt8} {cap : Nat} (h : encodeFrame m maxLen = .ok frame)
    (hcap : maxLen ≤ cap ∨ maxPayload ≤ cap) :
    readFront cap (frame ++ rest) = (.ok m, rest) := by
  obtain ⟨hlen, hmax, -⟩ := encodeFrame_eq_ok_iff.mp h
  rw [readFront, scan_frame h (by omega)]
  simp only [decode_encode_of_encodeFrame h]
  rfl

/-- Frames that were all written read back as the messages, and then the stream ends. -/
theorem Contributed.answers_eq {messages : List Message} {answers : List (Except FrameError Unit)}
    {cap : Nat} (h : Contributed maxLen limit messages answers bytes)
    (hok : ∀ answer ∈ answers, answer = .ok ()) (hcap : maxLen ≤ cap ∨ maxPayload ≤ cap) :
    Wire.answers cap (messages.length + 1) bytes =
      messages.map .ok ++ [.error (.stream .unexpectedEnd)] := by
  induction h with
  | nil => rfl
  | cons hpart _ ih =>
      obtain ⟨rfl, hrest⟩ := List.forall_mem_cons.mp hok
      cases hpart with
      | whole hframe =>
          rw [List.length_cons, Wire.answers, readFront_frame hframe hcap]
          exact congrArg _ (ih hrest)

/-- What comes out of a pipe of any capacity, whatever its reading end does and when: a beginning
of what the answers to the writes account for, all of it if the reading end never closes, and
then, if no write complains, the messages themselves. -/
theorem received_writeMany (ms maxLen capacity : Nat) (messages : List Message)
    (script : List PeerStep) :
    let after := writeMany ms maxLen messages { capacity, script }
    ∃ bytes, Contributed maxLen (.ofMillis ms) messages (after.1.map Prod.fst) bytes ∧
      after.2.received <+: bytes ∧
      (.close ∉ script → after.2.received = bytes ∧
        ((∀ answer ∈ after.1.map Prod.fst, answer = .ok ()) →
          ∀ cap, maxLen ≤ cap ∨ maxPayload ≤ cap →
            ∀ ms' coming, Inbound.Closes false coming →
            Inbound.arriving coming = after.2.received →
            Inbound.IsInTime ms' cap (messages.length + 1) { coming } →
            (Inbound.readMany ms' cap (messages.length + 1) { coming }).map Prod.fst =
              messages.map .ok ++ [.error (.stream .unexpectedEnd)])) := by
  intro after
  obtain ⟨bytes, hbytes, hputs⟩ := exists_puts_writeMany ms maxLen messages { capacity, script }
  have hcarries : after.2.Carries bytes := hputs.carries ⟨fun _ => rfl, List.prefix_refl []⟩
  refine ⟨bytes, hbytes, hcarries.received_prefix, fun hnever => ?_⟩
  have hreceived := hcarries.received_eq (hputs.listens ⟨rfl, hnever⟩)
  refine ⟨hreceived, fun hok cap hcap ms' coming hcloses harriving hin => ?_⟩
  rw [Inbound.readMany_eq_answers hcloses hin, ← hbytes.answers_eq hok hcap, ← hreceived,
    ← harriving]
  rfl

/-- Two heartbeats through a pipe that holds less than one of them. -/
theorem received_writeMany_heartbeats :
    let script : List PeerStep := [.read 10, .pause 5, .read 9, .pause 7, .read 27]
    let q := (writeMany 100 21 [.ping, .ping] { capacity := 16, script }).2
    (Inbound.readMany 10 21 3 { coming := [.bytes q.received, .close] }).map Prod.fst =
      [.ok .ping, .ok .ping, .error (.stream .unexpectedEnd)] := by
  intro script q
  obtain ⟨bytes, -, -, hall⟩ := received_writeMany 100 21 16 [.ping, .ping] script
  have hanswers : (writeMany 100 21 [.ping, .ping] { capacity := 16, script }).1.map Prod.fst =
      [.ok (), .ok ()] := by
    decide +kernel
  have hcloses : Inbound.Closes false [.bytes q.received, .close] := .bytes .close
  exact (hall (by decide)).2 (by rw [hanswers]; simp) 21 (.inl (Nat.le_refl _)) 10 _ hcloses
    (List.append_nil _) (Inbound.isInTime_of_waits_lt hcloses (by decide) 21 3)

end HookRelay.Wire.Pipe
