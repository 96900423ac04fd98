import HookRelay.Proofs.Connection.Surroundings
import HookRelay.Proofs.Connection.Turns
import HookRelay.Proofs.Wire.Cutting

namespace HookRelay.Connection

open Wire

/-- The messages that a reader does not keep to itself. -/
def passed (ms : List Message) : List Message := ms.filter (·.kind ≠ "pong")

/-- What a reader puts into the intake. -/
def putting (h : Happening) (s : Connection × Link) : List Message :=
  match h, s.1.reader with
  | .step _ (.reader .offer), .offering m => (s.2.intake.accepting s.1.ticket m).map (·.2)
  | .around .letIn, _ => Intake.itemsOf s.1.ticket s.2.intake.admitting
  | _, _ => []

/-- What a reader puts into the intake in the course of a run. -/
def puts (limits : Limits) : List Happening → Connection × Link → List Message :=
  Steps.seen (happen limits) putting

def ReaderStep.isInterruption : ReaderStep → Bool
  | .stop | .expire | .breakDown _ => true
  | .read | .offer | .resume => false

/-- Whether the reader sees the stop signal, gives a frame up or breaks down. -/
def Happening.isInterruption : Happening → Bool
  | .step _ (.reader s) => s.isInterruption
  | _ => false

/-- The message that a reader has in hand. -/
def inHand : Reader → List Message
  | .offering m => [m]
  | .reading _ | .waiting | .ended => []

/-- How many messages of a reader may wait in line. -/
def places : Reader → Nat
  | .waiting => 1
  | .reading _ | .offering _ | .ended => 0

/-- A reader has put `put` into the intake, and `own` waits in line. That is all that it has
heard, as long as it goes on. If nothing has interrupted it, it only ends when nothing more
can come of the stream. -/
structure Hears (maxLen : Nat) (calm : Prop) (put : List Message) (r : Reader) (s : Stream)
    (own : List Message) : Prop where
  going : r ≠ .ended → s.taken ≤ s.bytes.length ∧
    ∃ ms, Heard maxLen s.heard ms ∧ passed ms = put ++ inHand r ++ own
  place : own.length ≤ places r
  front : put <+: passed (cut maxLen s.bytes).1
  taken : s.taken ≤ (cut maxLen s.bytes).2
  ended : r = .ended → calm →
    put = passed (cut maxLen s.bytes).1 ∧ (s.ended = true ∨ IsSpoilt maxLen s.bytes)

variable {maxLen : Nat} {calm calm' : Prop} {put own : List Message} {r r' : Reader}
  {s s' : Stream} {m : Message} {ms : List Message}

theorem passed_append (ms ms' : List Message) : passed (ms ++ ms') = passed ms ++ passed ms' :=
  List.filter_append ms ms'

theorem passed_mono {ms ms' : List Message} (h : ms <+: ms') : passed ms <+: passed ms' :=
  h.filter _

theorem cut_bytes (hheard : Heard maxLen s.heard ms) (hle : s.taken ≤ s.bytes.length) :
    cut maxLen s.bytes = (ms ++ (cut maxLen s.left).1, s.taken + (cut maxLen s.left).2) := by
  have hbytes : s.bytes = s.heard ++ s.left := (List.take_append_drop s.taken s.bytes).symm
  have hlength : s.heard.length = s.taken := List.length_take_of_le hle
  rw [hbytes, hheard, hlength]

namespace Hears

theorem of_going (hr : r ≠ .ended) (hle : s.taken ≤ s.bytes.length)
    (hheard : Heard maxLen s.heard ms) (hpassed : passed ms = put ++ inHand r ++ own)
    (hplace : own.length ≤ places r) : Hears maxLen calm put r s own where
  going _ := ⟨hle, ms, hheard, hpassed⟩
  place := hplace
  front := by
    rw [cut_bytes hheard hle, passed_append, hpassed, List.append_assoc, List.append_assoc]
    exact List.prefix_append _ _
  taken := by
    rw [cut_bytes hheard hle]
    exact Nat.le_add_right _ _
  ended h := absurd h hr

theorem of_ended (hput : put <+: passed (cut maxLen s.bytes).1)
    (htaken : s.taken ≤ (cut maxLen s.bytes).2)
    (hcalm : calm → put = passed (cut maxLen s.bytes).1 ∧
      (s.ended = true ∨ IsSpoilt maxLen s.bytes)) : Hears maxLen calm put .ended s [] where
  going h := absurd rfl h
  place := Nat.le_refl _
  front := hput
  taken := htaken
  ended _ := hcalm

theorem mono (h : Hears maxLen calm put r s own) (hcalm : calm' → calm) :
    Hears maxLen calm' put r s own :=
  { h with ended := fun hr hc => h.ended hr (hcalm hc) }

theorem send (h : Hears maxLen calm put r s own) (hopen : s.ended = false) (bs : List UInt8) :
    Hears maxLen calm put r (s.put bs) own where
  going hr := by
    obtain ⟨hle, ms, hheard, hpassed⟩ := h.going hr
    refine ⟨?_, ms, ?_, hpassed⟩
    · change s.taken ≤ (s.bytes ++ bs).length
      rw [List.length_append]
      exact Nat.le_trans hle (Nat.le_add_right _ _)
    · change Heard maxLen ((s.bytes ++ bs).take s.taken) ms
      rwa [List.take_append_of_le_length hle]
  place := h.place
  front := h.front.trans (passed_mono (cut_append bs).1)
  taken := Nat.le_trans h.taken (cut_append bs).2
  ended hr hc := by
    -- A reader that ended by itself on a stream that goes on has met a bad frame.
    obtain ⟨hput, hclosed | hspoilt⟩ := h.ended hr hc
    · simp [hopen] at hclosed
    · refine ⟨?_, .inr fun more => ?_⟩
      · change put = passed (cut maxLen (s.bytes ++ bs)).1
        rw [hspoilt, hput]
      · change cut maxLen (s.bytes ++ bs ++ more) = cut maxLen (s.bytes ++ bs)
        rw [List.append_assoc, hspoilt, hspoilt]

theorem close (h : Hears maxLen calm put r s own) : Hears maxLen calm put r s.close own :=
  { h with ended := fun hr hc => ⟨(h.ended hr hc).1, .inl rfl⟩ }

theorem letIn (h : Hears maxLen calm put r s (m :: own)) :
    Hears maxLen calm (put ++ [m]) r s own := by
  have hplace := h.place
  cases r with
  | waiting =>
      obtain ⟨hle, ms, hheard, hpassed⟩ := h.going nofun
      refine .of_going nofun hle hheard ?_ ?_
      · rw [hpassed, inHand, List.append_nil, List.append_nil, List.append_assoc]
        rfl
      · exact Nat.le_trans (Nat.le_succ _) hplace
  | reading | offering | ended => simp [places] at hplace

theorem own_eq_nil (h : Hears maxLen calm put r s own) (hr : places r = 0) : own = [] :=
  List.eq_nil_of_length_eq_zero (Nat.le_zero.mp (hr ▸ h.place))

theorem reading {due : Nat} (h : Hears maxLen calm put (.reading due) s own) :
    own = [] ∧ s.taken ≤ s.bytes.length ∧ ∃ ms, Heard maxLen s.heard ms ∧
      passed ms = put := by
  have hown := h.own_eq_nil rfl
  obtain ⟨hle, ms, hheard, hpassed⟩ := h.going nofun
  rw [hown, inHand, List.append_nil, List.append_nil] at hpassed
  exact ⟨hown, hle, ms, hheard, hpassed⟩

theorem at_end {due n : Nat} (h : Hears maxLen calm put (.reading due) s own)
    (hcut : cut maxLen s.left = ([], n)) :
    put = passed (cut maxLen s.bytes).1 ∧ (cut maxLen s.bytes).2 = s.taken + n := by
  obtain ⟨-, hle, ms, hheard, hpassed⟩ := h.reading
  rw [cut_bytes hheard hle, hcut, List.append_nil, hpassed]
  exact ⟨rfl, rfl⟩

theorem spoilt {due : Nat} (h : Hears maxLen calm put (.reading due) s own)
    (hspoilt : IsSpoilt maxLen s.left) : IsSpoilt maxLen s.bytes := by
  obtain ⟨-, -, ms, hheard, -⟩ := h.reading
  have hwhole := hspoilt.behind hheard
  rwa [Stream.heard, Stream.left, List.take_append_drop] at hwhole

end Hears

/-- The messages of a connection's reader that wait in line. -/
def ownLine (c : Connection) (l : Link) : List Message := Intake.itemsOf c.ticket l.intake.line

/-- Nothing has changed for the reader. -/
structure SameReading (c : Connection) (l : Link) (c' : Connection) (l' : Link) : Prop where
  reader : c'.reader = c.reader
  ticket : c'.ticket = c.ticket
  inbound : l'.socket.inbound = l.socket.inbound
  intake : l'.intake = l.intake

variable {limits : Limits} {now due : Nat} {c c' : Connection} {l l' : Link}
  {x : Connection × Link}

theorem beginFrame_sameReading {beat : Nat} (hsocket : l'.socket = l.socket)
    (hintake : l'.intake = l.intake) :
    SameReading c l (beginFrame limits now beat m c l').1
      (beginFrame limits now beat m c l').2 := by
  unfold beginFrame
  split
  · refine ⟨rfl, rfl, ?_, hintake⟩
    change l'.socket.inbound = l.socket.inbound
    rw [hsocket]
  · refine ⟨rfl, rfl, ?_, hintake⟩
    rw [hsocket]

theorem stepWriter_sameReading {step : WriterStep} (h : stepWriter limits now step c l = some x) :
    SameReading c l x.1 x.2 := by
  cases writerTurn_of_step h with
  | takes | beats => exact beginFrame_sameReading rfl rfl
  | failsToStart | starts | stops | forgotten | losesClient | puts | expires | breaks =>
      exact ⟨rfl, rfl, rfl, rfl⟩

theorem stepCoordinator_sameReading {step : CoordinatorStep}
    (h : stepCoordinator step c l = some x) : SameReading c l x.1 x.2 := by
  unfold stepCoordinator at h
  repeat' split at h
  all_goals cases h
  all_goals exact ⟨rfl, rfl, rfl, rfl⟩

theorem ownLine_endReader (e : Option ConnectionError) (hown : (ownLine c l).length ≤ 1)
    (hintake : l'.intake = l.intake) :
    ownLine (endReader e c l').1 (endReader e c l').2 = [] := by
  change Intake.itemsOf c.ticket (l'.intake.leave c.ticket).line = []
  rw [Intake.itemsOf_leave, hintake]
  exact List.eq_nil_of_length_eq_zero (by rw [List.length_tail]; exact Nat.sub_eq_zero_of_le hown)

theorem places_le_one (r : Reader) : places r ≤ 1 := by
  cases r <;> simp [places]

theorem endReader_hears (e : Option ConnectionError) {n : Nat}
    (h : Hears maxLen calm put c.reader l.socket.inbound (ownLine c l))
    (hinbound : l'.socket.inbound = l.socket.inbound.take n) (hintake : l'.intake = l.intake)
    (htaken : l.socket.inbound.taken + n ≤ (cut maxLen l.socket.inbound.bytes).2)
    (hcalm : calm' → put = passed (cut maxLen l.socket.inbound.bytes).1 ∧
      (l.socket.inbound.ended = true ∨ IsSpoilt maxLen l.socket.inbound.bytes)) :
    Hears maxLen calm' put .ended (endReader e c l').2.socket.inbound
      (ownLine (endReader e c l').1 (endReader e c l').2) := by
  rw [ownLine_endReader e (Nat.le_trans h.place (places_le_one _)) hintake]
  change Hears maxLen calm' put .ended l'.socket.inbound []
  rw [hinbound]
  exact .of_ended h.front htaken hcalm

theorem interrupt_hears (e : Option ConnectionError)
    (h : Hears maxLen calm put c.reader l.socket.inbound (ownLine c l))
    (hinbound : l'.socket.inbound = l.socket.inbound) (hintake : l'.intake = l.intake)
    (hcalm : ¬ calm') :
    Hears maxLen calm' put .ended (endReader e c l').2.socket.inbound
      (ownLine (endReader e c l').1 (endReader e c l').2) :=
  endReader_hears (n := 0) e h (by rw [hinbound]; rfl) hintake h.taken fun hc => absurd hc hcalm

theorem passed_of_isPong (hpong : m.isPong = true) : passed [m] = [] := by
  rw [Message.isPong, beq_iff_eq] at hpong
  simp [passed, hpong]

theorem passed_of_not_isPong (hpong : ¬ m.isPong = true) : passed [m] = [m] := by
  rw [Message.isPong, beq_iff_eq] at hpong
  simp [passed, hpong]

theorem heard_take {payload rest : List UInt8} (hle : s.taken ≤ s.bytes.length)
    (hheard : Heard maxLen s.heard ms) (hscan : scan maxLen s.left = .frame payload rest)
    (hdecode : decode payload = .ok m) :
    (s.take (payload.length + 2)).taken ≤ s.bytes.length ∧
      Heard maxLen (s.take (payload.length + 2)).heard (ms ++ [m]) := by
  have hlength := length_of_scan_frame hscan
  rw [Stream.left, List.length_drop] at hlength
  constructor
  · change s.taken + (payload.length + 2) ≤ s.bytes.length
    omega
  · have hnext := hheard.append (heard_of_scan hscan hdecode)
    change Heard maxLen (s.bytes.take (s.taken + (payload.length + 2))) (ms ++ [m])
    rwa [List.take_add]

theorem read_hears
    (h : Hears limits.maxFrameLen calm put c.reader l.socket.inbound (ownLine c l))
    (hturn : ReaderTurn limits now c l .read x) :
    Hears limits.maxFrameLen calm put x.1.reader x.2.socket.inbound (ownLine x.1 x.2) := by
  cases hturn with
  | undecodable hreading hscan hdecode =>
      have hreads := hreading ▸ h
      obtain ⟨hcut, hspoilt⟩ := cut_of_scan_undecodable hscan hdecode
      obtain ⟨hput, htaken⟩ := hreads.at_end hcut
      exact endReader_hears _ h rfl rfl (Nat.le_of_eq htaken.symm)
        fun _ => ⟨hput, .inr (hreads.spoilt hspoilt)⟩
  | @pong _ _ _ m hreading hscan hdecode hpong =>
      obtain ⟨hown, hle, ms, hheard, hpassed⟩ := (hreading ▸ h).reading
      obtain ⟨hle', hheard'⟩ := heard_take hle hheard hscan hdecode
      refine .of_going nofun hle' hheard' ?_ (hown ▸ Nat.le_refl 0)
      change passed (ms ++ [m]) = put ++ [] ++ ownLine c l
      rw [passed_append, hpassed, passed_of_isPong hpong, hown, List.append_nil, List.append_nil]
  | @hears _ _ _ m hreading hscan hdecode hpong =>
      obtain ⟨hown, hle, ms, hheard, hpassed⟩ := (hreading ▸ h).reading
      obtain ⟨hle', hheard'⟩ := heard_take hle hheard hscan hdecode
      refine .of_going nofun hle' hheard' ?_ (hown ▸ Nat.le_refl 0)
      change passed (ms ++ [m]) = put ++ [m] ++ ownLine c l
      rw [passed_append, hpassed, passed_of_not_isPong (Bool.eq_false_iff.mp hpong), hown,
        List.append_nil]
  | oversized hreading hscan =>
      have hreads := hreading ▸ h
      obtain ⟨hcut, hspoilt⟩ := cut_of_scan_oversized hscan
      obtain ⟨hput, htaken⟩ := hreads.at_end hcut
      exact endReader_hears _ h rfl rfl (Nat.le_of_eq htaken.symm)
        fun _ => ⟨hput, .inr (hreads.spoilt hspoilt)⟩
  | streamEnds hreading hscan hended =>
      obtain ⟨hput, htaken⟩ := (hreading ▸ h).at_end (cut_of_scan_incomplete hscan)
      exact endReader_hears (n := 0) _ h rfl rfl (Nat.le_of_eq htaken.symm)
        fun _ => ⟨hput, .inl hended⟩

theorem offer_hears {entry : Entry} {intake : Intake Message}
    (h : Hears maxLen calm put (.offering m) l.socket.inbound (ownLine c l))
    (hbring : l.intake.bring c.ticket m = (entry, intake)) :
    (entry = .accepted → ∀ due, Hears maxLen calm
      (put ++ (l.intake.accepting c.ticket m).map (·.2)) (.reading due) l.socket.inbound
      (Intake.itemsOf c.ticket intake.line)) ∧
    (entry = .waits → Hears maxLen calm
      (put ++ (l.intake.accepting c.ticket m).map (·.2)) .waiting l.socket.inbound
      (Intake.itemsOf c.ticket intake.line)) := by
  obtain ⟨hle, ms, hheard, hpassed⟩ := h.going Reader.noConfusion
  have hown : ownLine c l = [] := h.own_eq_nil rfl
  rw [hown, List.append_nil, inHand] at hpassed
  unfold ownLine at hown
  have haccepting : l.intake.accepting c.ticket m =
      if entry = .accepted then [(c.ticket, m)] else [] := by
    rw [Intake.accepting, hbring]
  have hline : Intake.itemsOf c.ticket intake.line =
      if entry = .waits then [m] else [] := by
    unfold Intake.bring at hbring
    split at hbring
    · cases hbring
      exact hown
    · split at hbring <;> cases hbring
      · exact hown
      · rw [Intake.itemsOf_append, hown, Intake.itemsOf_singleton, if_pos rfl]
        rfl
  rw [haccepting, hline]
  constructor
  · rintro rfl due
    refine .of_going Reader.noConfusion hle hheard ?_ (Nat.le_refl _)
    rw [hpassed, inHand, List.append_nil]
    exact (List.append_nil _).symm
  · rintro rfl
    refine .of_going Reader.noConfusion hle hheard ?_ (Nat.le_refl _)
    rw [hpassed, inHand, List.append_nil]
    exact congrArg (· ++ [m]) (List.append_nil _).symm

theorem stepReader_hears {step : ReaderStep}
    (h : Hears limits.maxFrameLen calm put c.reader l.socket.inbound (ownLine c l))
    (hstep : stepReader limits now step c l = some x)
    (hcalm : calm' → calm ∧ step.isInterruption = false ∧
      x.2.intake.queue.isListening = true) :
    Hears limits.maxFrameLen calm' (put ++ putting (.step now (.reader step)) (c, l)) x.1.reader
      x.2.socket.inbound (ownLine x.1 x.2) := by
  have hinterrupted : step.isInterruption = true → ¬ calm' := by
    intro hyes hc
    simp [(hcalm hc).2.1] at hyes
  have hclosed : x.2.intake.queue.isListening = false → ¬ calm' := by
    intro hno hc
    simp [(hcalm hc).2.2] at hno
  have hnone : putting (.step now (.reader step)) (c, l) = [] →
      put ++ putting (.step now (.reader step)) (c, l) = put :=
    List.append_right_eq_self.mpr
  have hputting : ∀ {m}, c.reader = .offering m →
      putting (.step now (.reader .offer)) (c, l) =
        (l.intake.accepting c.ticket m).map (·.2) := by
    intro m hoffering
    simp only [putting, hoffering]
  cases readerTurn_of_step hstep with
  | stops | expires | breaks =>
      rw [hnone rfl]
      exact interrupt_hears _ h rfl rfl (hinterrupted rfl)
  | undecodable | pong | hears | oversized | streamEnds =>
      rw [hnone rfl]
      exact (read_hears h (readerTurn_of_step hstep)).mono fun hc => (hcalm hc).1
  | putsIn hoffering hbring =>
      rw [hputting hoffering]
      exact ((offer_hears (hoffering ▸ h) hbring).1 rfl _).mono fun hc => (hcalm hc).1
  | standsInLine hoffering hbring =>
      rw [hputting hoffering]
      exact ((offer_hears (hoffering ▸ h) hbring).2 rfl).mono fun hc => (hcalm hc).1
  | @refused m intake hoffering hbring =>
      have hnothing : l.intake.accepting c.ticket m = [] := by
        rw [Intake.accepting, hbring]
        rfl
      have hno := Intake.isListening_of_refused hbring
      rw [hputting hoffering, hnothing, List.map_nil, List.append_nil]
      exact interrupt_hears _ h rfl rfl (hclosed hno)
  | resumes hwaiting hline =>
      rw [hnone rfl]
      have hown : ownLine c l = [] := Intake.itemsOf_eq_nil_iff.mpr hline
      obtain ⟨hle, ms, hheard, hpassed⟩ := (hwaiting ▸ h).going Reader.noConfusion
      exact .of_going Reader.noConfusion hle hheard hpassed (hown ▸ Nat.le_refl 0)
  | losesPlace hwaiting _ hno =>
      rw [hnone rfl]
      exact interrupt_hears _ h rfl rfl (hclosed hno)

theorem outside_hears {o : Around}
    (h : Hears maxLen calm put c.reader l.socket.inbound (ownLine c l))
    (houtside : outside c.ticket o l = some l') :
    Hears maxLen calm (put ++ putting (.around o) (c, l)) c.reader l'.socket.inbound
      (ownLine c l') := by
  have hnone : putting (.around o) (c, l) = [] → put ++ putting (.around o) (c, l) = put :=
    List.append_right_eq_self.mpr
  have hkept : putting (.around o) (c, l) = [] → l'.socket.inbound = l.socket.inbound →
      ownLine c l' = ownLine c l →
      Hears maxLen calm (put ++ putting (.around o) (c, l)) c.reader l'.socket.inbound
        (ownLine c l') := by
    intro hnothing hinbound hown
    rwa [hnone hnothing, hinbound, hown]
  cases o with
  | send bs =>
      simp only [outside] at houtside
      split at houtside <;> cases houtside
      next hopen =>
      rw [hnone rfl]
      exact h.send ((Bool.not_eq_true' _).mp hopen) bs
  | halfClose | close =>
      cases houtside
      rw [hnone rfl]
      exact h.close
  | bring t m =>
      simp only [outside] at houtside
      split at houtside <;> cases houtside
      next hne =>
      exact hkept rfl rfl (Intake.itemsOf_bring_of_ne hne m)
  | leave t =>
      simp only [outside] at houtside
      split at houtside <;> cases houtside
      next hne =>
      exact hkept rfl rfl (Intake.itemsOf_leave_of_ne hne)
  | letIn =>
      obtain ⟨⟨t, intake⟩, hletIn, rfl⟩ := Option.map_eq_some_iff.mp houtside
      obtain ⟨m, hline, hadmitting, -⟩ := Intake.admitting_of_letIn hletIn
      -- Whoever is first in line is let in, which may be this reader or another one.
      have hown : ownLine c l = Intake.itemsOf c.ticket [(t, m)] ++
          Intake.itemsOf c.ticket intake.line := by
        rw [← Intake.itemsOf_append, List.singleton_append, ← hline]
        rfl
      have hputting : putting (.around .letIn) (c, l) = Intake.itemsOf c.ticket [(t, m)] :=
        congrArg (Intake.itemsOf c.ticket) hadmitting
      rw [hputting]
      change Hears maxLen calm _ c.reader l.socket.inbound (Intake.itemsOf c.ticket intake.line)
      rw [hown] at h
      by_cases ht : t = c.ticket
      · rw [Intake.itemsOf_singleton, if_pos ht] at h ⊢
        exact h.letIn
      · rw [Intake.itemsOf_of_ne ht] at h ⊢
        rwa [List.append_nil]
  | take =>
      cases houtside
      have hline : l.intake.take.2.line = l.intake.line :=
        Intake.line_of_take (rfl : l.intake.take = (l.intake.take.1, l.intake.take.2))
      exact hkept rfl rfl (congrArg (Intake.itemsOf c.ticket) hline)
  | receive | queue | closeQueue | stop | closeIntake | addSender | dropSender | note =>
      cases houtside
      exact hkept rfl rfl rfl

theorem happen_hears {h : Happening} {z z' : Connection × Link}
    (hears : Hears limits.maxFrameLen calm put z.1.reader z.2.socket.inbound (ownLine z.1 z.2))
    (hhappen : happen limits h z = some z')
    (hcalm : calm' → calm ∧ h.isInterruption = false ∧ z'.2.intake.queue.isListening = true) :
    Hears limits.maxFrameLen calm' (put ++ putting h z) z'.1.reader z'.2.socket.inbound
      (ownLine z'.1 z'.2) := by
  have hsame : ∀ {h}, putting h z = [] → SameReading z.1 z.2 z'.1 z'.2 →
      Hears limits.maxFrameLen calm' (put ++ putting h z) z'.1.reader z'.2.socket.inbound
        (ownLine z'.1 z'.2) := by
    intro h hputting hsame
    rw [hputting, List.append_nil, ownLine, hsame.reader, hsame.inbound, hsame.ticket, hsame.intake]
    exact hears.mono fun hc => (hcalm hc).1
  cases h with
  | around o =>
      obtain ⟨l', houtside, rfl⟩ := Option.map_eq_some_iff.mp hhappen
      exact (outside_hears hears houtside).mono fun hc => (hcalm hc).1
  | step now a =>
      cases a with
      | reader step => exact stepReader_hears hears hhappen hcalm
      | writer step => exact hsame rfl (stepWriter_sameReading hhappen)
      | coordinator step => exact hsame rfl (stepCoordinator_sameReading hhappen)

theorem isListening_of_stepReader {step : ReaderStep} (h : stepReader limits now step c l = some x)
    (hlistening : x.2.intake.queue.isListening = true) :
    l.intake.queue.isListening = true := by
  cases readerTurn_of_step h with
  | putsIn _ hbring | standsInLine _ hbring =>
      rwa [← (Intake.sameEnds_of_bring hbring).isListening]
  | stops | undecodable | pong | hears | oversized | streamEnds | expires | refused | resumes |
    losesPlace | breaks => exact hlistening

theorem isListening_of_outside {o : Around} (houtside : outside c.ticket o l = some l')
    (hlistening : l'.intake.queue.isListening = true) : l.intake.queue.isListening = true := by
  cases o with
  | send bs =>
      simp only [outside] at houtside
      split at houtside <;> cases houtside
      exact hlistening
  | bring t m =>
      simp only [outside] at houtside
      split at houtside <;> cases houtside
      rwa [← (Intake.sameEnds_bring t m).isListening]
  | leave t =>
      simp only [outside] at houtside
      split at houtside <;> cases houtside
      exact hlistening
  | letIn =>
      obtain ⟨⟨t, intake⟩, hletIn, rfl⟩ := Option.map_eq_some_iff.mp houtside
      rwa [← (Intake.sameEnds_letIn hletIn).isListening]
  | take =>
      cases houtside
      rwa [← (Intake.sameEnds_take (rfl : l.intake.take = (l.intake.take.1, _))).isListening]
  | closeIntake =>
      cases houtside
      cases hlistening
  | halfClose | close | receive | queue | closeQueue | stop | addSender | dropSender | note =>
      cases houtside
      exact hlistening

/-- Nobody opens an intake that is closed. -/
theorem isListening_of_happen {h : Happening} {z z' : Connection × Link}
    (hhappen : happen limits h z = some z') (hlistening : z'.2.intake.queue.isListening = true) :
    z.2.intake.queue.isListening = true := by
  cases h with
  | around o =>
      obtain ⟨l', houtside, rfl⟩ := Option.map_eq_some_iff.mp hhappen
      exact isListening_of_outside houtside hlistening
  | step now a =>
      cases a with
      | reader step => exact isListening_of_stepReader hhappen hlistening
      | writer step => rwa [← (stepWriter_sameReading hhappen).intake]
      | coordinator step => rwa [← (stepCoordinator_sameReading hhappen).intake]

/-- Nothing has interrupted the reader, and the intake is still open. -/
def Calm (hs : List Happening) (l : Link) : Prop :=
  hs.all (!·.isInterruption) = true ∧ l.intake.queue.isListening = true

theorem start_hears {id : UInt64} {ticket start : Nat} {link : Link}
    (htaken : link.socket.inbound.taken = 0) (hwaiting : link.intake.isWaiting ticket = false) :
    Hears limits.maxFrameLen calm [] (Connection.start limits id ticket start).reader
      link.socket.inbound (ownLine (Connection.start limits id ticket start) link) := by
  have hown : ownLine (Connection.start limits id ticket start) link = [] :=
    Intake.itemsOf_eq_nil_iff.mpr hwaiting
  rw [hown]
  refine .of_going nofun ?_ (?_ : Heard _ _ []) rfl (Nat.zero_le _)
  · rw [htaken]
    exact Nat.zero_le _
  · rw [Stream.heard, htaken]
    exact heard_nil

theorem run_hears {hs : List Happening} {z z' : Connection × Link}
    (hstart : ∀ calm, Hears limits.maxFrameLen calm [] z.1.reader z.2.socket.inbound
      (ownLine z.1 z.2))
    (hrun : run limits hs z = some z') :
    Hears limits.maxFrameLen (Calm hs z'.2) (puts limits hs z) z'.1.reader z'.2.socket.inbound
      (ownLine z'.1 z'.2) := by
  refine Steps.run_induction (P := fun hs z' => Hears limits.maxFrameLen (Calm hs z'.2)
    (puts limits hs z) z'.1.reader z'.2.socket.inbound (ownLine z'.1 z'.2)) (hstart _) ?_ hrun
  intro hs h z₁ z₂ hrun ih hhappen
  rw [puts, Steps.seen_concat hrun hhappen]
  refine happen_hears ih hhappen fun hcalm => ?_
  obtain ⟨hall, hlistening⟩ := hcalm
  rw [List.all_append, Bool.and_eq_true] at hall
  refine ⟨⟨hall.1, isListening_of_happen hhappen hlistening⟩, ?_, hlistening⟩
  simpa using hall.2

/-- A reader that has not been interrupted, whose message does not wait in line, and that can
do nothing, has passed on all there is. -/
theorem Hears.of_stuck
    (h : Hears limits.maxFrameLen calm put c.reader l.socket.inbound (ownLine c l))
    (hcalm : calm) (hline : l.intake.isWaiting c.ticket = false)
    (hstuck : ∀ now step, step.isInterruption = false → stepReader limits now step c l = none) :
    put = passed (cut limits.maxFrameLen l.socket.inbound.bytes).1 := by
  cases hreader : c.reader with
  | reading due =>
      have hread := hstuck 0 .read rfl
      simp only [stepReader, hreader] at hread
      unfold readFrame at hread
      split at hread
      · cases hread
      · cases hread
      · next e hscan =>
        exact ((hreader ▸ h).at_end (cut_of_scan_incomplete hscan)).1
  | offering m =>
      have hoffer := hstuck 0 .offer rfl
      simp only [stepReader, hreader] at hoffer
      split at hoffer <;> cases hoffer
  | waiting =>
      have hresume := hstuck 0 .resume rfl
      simp [stepReader, hreader, hline] at hresume
  | ended => exact (h.ended hreader hcalm).1

end HookRelay.Connection
