import Mathlib.Control.Monad.Basic
import HookRelay.Proofs.Wire.Cutting
import HookRelay.Wire.Inbound
/-!
Reading a stream that arrives in pieces. Where no read runs out of time, the answers are a
function of the bytes of the stream alone, and each read takes whole frames off their front:
a read that waited for a piece and one that found everything there leave the same bytes.
-/

namespace HookRelay.Wire

/-- What a read of these bytes answers if nothing comes after them, and what it leaves. -/
def readFront (maxLen : Nat) (bs : List UInt8) : Except FrameError Message × List UInt8 :=
  match scan maxLen bs with
  | .frame payload rest => ((decode payload).mapError .undecodable, rest)
  | .oversized len rest => (.error (.tooLong len maxLen), rest)
  | .incomplete e => (.error (.stream e), [])

/-- The answers to up to `n` reads of these bytes, one after another. -/
def answers (maxLen : Nat) : Nat → List UInt8 → List (Except FrameError Message)
  | 0, _ => []
  | n + 1, bs =>
    let (answer, rest) := readFront maxLen bs
    answer :: if Inbound.goesOn answer then answers maxLen n rest else []

/-- The length that the first two bytes declare. -/
def declared : List UInt8 → Option Nat
  | hi :: lo :: _ => some (beValue [hi, lo])
  | _ => none

/-- What an answer says about the bytes in front of which a read was made, and which of them
are left behind it. -/
structure Aligned (maxLen : Nat) (before : List UInt8) (answer : Except FrameError Message)
    (after : List UInt8) : Prop where
  /-- A payload that was looked at is taken, and nothing behind it. -/
  frame : (∃ m, answer = .ok m) ∨ (∃ e, answer = .error (.undecodable e)) →
    ∃ len, declared before = some len ∧ len ≤ maxLen ∧ 2 + len ≤ before.length ∧
      answer = (decode ((before.drop 2).take len)).mapError .undecodable ∧
      after = before.drop (2 + len)
  /-- Of a frame that is too long only the length is taken. -/
  oversized : ∀ len max, answer = .error (.tooLong len max) →
    max = maxLen ∧ declared before = some len ∧ after = before.drop 2
  oversized_iff : (∃ len max, answer = .error (.tooLong len max)) ↔
    ∃ len, declared before = some len ∧ maxLen < len
  unexpectedEnd_iff : answer = .error (.stream .unexpectedEnd) ↔ before.length < 2
  earlyEnd_iff : answer = .error (.stream .earlyEnd) ↔
    ∃ len, declared before = some len ∧ len ≤ maxLen ∧ before.length < 2 + len

variable {maxLen : Nat} {bs payload rest : List UInt8}

theorem scan_append_of_frame (h : scan maxLen bs = .frame payload rest) (more : List UInt8) :
    scan maxLen (bs ++ more) = .frame payload (rest ++ more) := by
  obtain ⟨hi, lo, rfl, hlen, hmax⟩ := exists_of_scan_frame h
  simp only [List.cons_append, List.append_assoc, scan, beValue_pair, hlen]
  rw [if_neg (Nat.not_lt.mpr hmax), List.take_left, List.drop_left, if_pos rfl]

theorem scan_append_of_oversized {len : Nat} (h : scan maxLen bs = .oversized len rest)
    (more : List UInt8) : scan maxLen (bs ++ more) = .oversized len (rest ++ more) := by
  match bs with
  | [] => simp [scan] at h
  | [_] => simp [scan] at h
  | hi :: lo :: bs =>
    simp only [scan] at h
    split at h
    · next hlong =>
      cases h
      simp only [List.cons_append, scan]
      rw [if_pos hlong]
    · split at h <;> cases h

theorem mapError_decode_ne {e : FrameError} (he : ∀ d, e ≠ .undecodable d) :
    (decode payload).mapError .undecodable ≠ .error e := by
  cases decode payload with
  | ok m => nofun
  | error d => exact fun h => he d (Except.error.inj h).symm

theorem aligned_of_short (h : bs.length < 2) :
    Aligned maxLen bs (.error (.stream .unexpectedEnd)) [] := by
  have hnone : declared bs = none := by
    match bs, h with
    | [], _ | [_], _ => rfl
  exact {
    frame := by rintro (⟨_, h⟩ | ⟨_, h⟩) <;> cases h
    oversized := nofun
    oversized_iff := ⟨nofun, fun ⟨_, hsome, _⟩ => nomatch hnone.symm.trans hsome⟩
    unexpectedEnd_iff := ⟨fun _ => h, fun _ => rfl⟩
    earlyEnd_iff := ⟨nofun, fun ⟨_, hsome, _⟩ => nomatch hnone.symm.trans hsome⟩ }

section

variable {len : Nat} (hlen : 2 ≤ bs.length) (hdeclared : declared bs = some len)

include hlen hdeclared

theorem aligned_of_oversized (hlong : maxLen < len) :
    Aligned maxLen bs (.error (.tooLong len maxLen)) (bs.drop 2) where
  frame := by rintro (⟨_, h⟩ | ⟨_, h⟩) <;> cases h
  oversized := by
    rintro _ _ h
    cases h
    exact ⟨rfl, hdeclared, rfl⟩
  oversized_iff := ⟨fun _ => ⟨len, hdeclared, hlong⟩, fun _ => ⟨_, _, rfl⟩⟩
  unexpectedEnd_iff := ⟨nofun, fun h => absurd h (Nat.not_lt.mpr hlen)⟩
  earlyEnd_iff := by
    refine ⟨nofun, ?_⟩
    rintro ⟨len', hsome, hle, -⟩
    cases hdeclared.symm.trans hsome
    exact absurd hlong (Nat.not_lt.mpr hle)

theorem aligned_of_early (hmax : len ≤ maxLen) (hshort : bs.length < 2 + len) :
    Aligned maxLen bs (.error (.stream .earlyEnd)) [] where
  frame := by rintro (⟨_, h⟩ | ⟨_, h⟩) <;> cases h
  oversized := nofun
  oversized_iff := by
    refine ⟨nofun, ?_⟩
    rintro ⟨len', hsome, hlong⟩
    cases hdeclared.symm.trans hsome
    exact absurd hlong (Nat.not_lt.mpr hmax)
  unexpectedEnd_iff := ⟨nofun, fun h => absurd h (Nat.not_lt.mpr hlen)⟩
  earlyEnd_iff := ⟨fun _ => ⟨len, hdeclared, hmax, hshort⟩, fun _ => rfl⟩

theorem aligned_of_frame (hmax : len ≤ maxLen) (hwhole : 2 + len ≤ bs.length) :
    Aligned maxLen bs ((decode ((bs.drop 2).take len)).mapError .undecodable)
      (bs.drop (2 + len)) where
  frame _ := ⟨len, hdeclared, hmax, hwhole, rfl, rfl⟩
  oversized _ _ h := absurd h (mapError_decode_ne nofun)
  oversized_iff := by
    refine ⟨fun ⟨_, _, h⟩ => absurd h (mapError_decode_ne nofun), ?_⟩
    rintro ⟨len', hsome, hlong⟩
    cases hdeclared.symm.trans hsome
    exact absurd hlong (Nat.not_lt.mpr hmax)
  unexpectedEnd_iff :=
    ⟨fun h => absurd h (mapError_decode_ne nofun), fun h => absurd h (Nat.not_lt.mpr hlen)⟩
  earlyEnd_iff := by
    refine ⟨fun h => absurd h (mapError_decode_ne nofun), ?_⟩
    rintro ⟨len', hsome, -, hshort⟩
    cases hdeclared.symm.trans hsome
    exact absurd hwhole (Nat.not_le.mpr hshort)

end

theorem readFront_aligned (maxLen : Nat) (bs : List UInt8) :
    Aligned maxLen bs (readFront maxLen bs).1 (readFront maxLen bs).2 := by
  match bs with
  | [] => exact aligned_of_short Nat.two_pos
  | [_] => exact aligned_of_short Nat.one_lt_two
  | hi :: lo :: bs =>
    unfold readFront
    simp only [scan]
    generalize hvalue : beValue [hi, lo] = len
    have hlen : 2 ≤ (hi :: lo :: bs).length := Nat.le_add_left 2 bs.length
    have hdeclared : declared (hi :: lo :: bs) = some len := congrArg some hvalue
    by_cases hlong : maxLen < len
    · rw [if_pos hlong]
      exact aligned_of_oversized hlen hdeclared hlong
    · have hmax := Nat.not_lt.mp hlong
      rw [if_neg hlong, List.length_take]
      by_cases hwhole : min len bs.length = len
      · rw [if_pos hwhole]
        have hframe := aligned_of_frame hlen hdeclared hmax
          (by rw [List.length_cons, List.length_cons]; omega)
        rwa [Nat.add_comm] at hframe
      · rw [if_neg hwhole]
        exact aligned_of_early hlen hdeclared hmax
          (by rw [List.length_cons, List.length_cons]; omega)

theorem Aligned.length_lt {before after : List UInt8} {answer : Except FrameError Message}
    (h : Aligned maxLen before answer after) (hgoes : Inbound.goesOn answer = true)
    (hdeadline : ∀ limit, answer ≠ .error (.deadline limit)) :
    after.length < before.length := by
  have htaken : ∀ {n}, 2 ≤ before.length → after = before.drop (2 + n) →
      after.length < before.length := by
    rintro n hlen rfl
    rw [List.length_drop]
    omega
  match answer with
  | .ok m =>
      obtain ⟨len, -, -, hlen, -, hafter⟩ := h.frame (.inl ⟨m, rfl⟩)
      exact htaken (by omega) hafter
  | .error (.undecodable e) =>
      obtain ⟨len, -, -, hlen, -, hafter⟩ := h.frame (.inr ⟨e, rfl⟩)
      exact htaken (by omega) hafter
  | .error (.tooLong len max) =>
      obtain ⟨-, hdeclared, hafter⟩ := h.oversized len max rfl
      refine htaken (n := 0) ?_ hafter
      match before, hdeclared with
      | _ :: _ :: _, _ => simp
  | .error (.deadline limit) => exact absurd rfl (hdeadline limit)

namespace Inbound

/-- The bytes that the writing side will still send. -/
def arriving : List Arrival → List UInt8
  | .bytes bs :: coming => bs ++ arriving coming
  | .pause _ :: coming | .close :: coming => arriving coming
  | [] => []

/-- How long the writing side will still pause, all in all. -/
def waits : List Arrival → Nat
  | .pause ms :: coming => ms + waits coming
  | .bytes _ :: coming | .close :: coming => waits coming
  | [] => 0

/-- Closing is the last thing that the writing side does, or did. -/
inductive Closes : Bool → List Arrival → Prop
  | done : Closes true []
  | close : Closes false [.close]
  | bytes {bs : List UInt8} {coming : List Arrival} :
      Closes false coming → Closes false (.bytes bs :: coming)
  | pause {ms : Nat} {coming : List Arrival} :
      Closes false coming → Closes false (.pause ms :: coming)

/-- All the bytes in front of the reader, those to come included. -/
def left (s : Inbound) : List UInt8 :=
  s.buffered ++ arriving s.coming

variable {s t : Inbound} {coming coming' : List Arrival} {buffered : List UInt8} {closed : Bool}
  {ms now deadline n : Nat} {limit : Duration} {answer : Except FrameError Message}

theorem settle_left (s : Inbound) : s.settle.left = s.left := by
  suffices h : ∀ coming buffered closed, (deliver coming buffered closed).1 ++
      arriving (deliver coming buffered closed).2.2 = buffered ++ arriving coming from h ..
  intro coming buffered closed
  fun_induction deliver coming buffered closed with
  | case1 bs coming buffered closed ih => rw [ih, List.append_assoc, arriving]
  | case2 coming buffered closed ih => exact ih
  | case3 coming buffered closed ih => exact ih
  | case4 => rfl

theorem settle_waits (s : Inbound) : waits s.settle.coming = waits s.coming := by
  suffices h : ∀ coming buffered closed,
      waits (deliver coming buffered closed).2.2 = waits coming from h ..
  intro coming buffered closed
  fun_induction deliver coming buffered closed with
  | case1 bs coming buffered closed ih => exact ih
  | case2 coming buffered closed ih => exact ih
  | case3 coming buffered closed ih => rw [ih, waits, Nat.zero_add]
  | case4 => rfl

theorem Closes.deliver (h : Closes closed coming) (buffered : List UInt8) :
    Closes (deliver coming buffered closed).2.1 (deliver coming buffered closed).2.2 := by
  induction h generalizing buffered with
  | done => exact .done
  | close => exact .done
  | bytes _ ih => exact ih _
  | @pause ms coming h ih =>
      cases ms with
      | zero => exact ih _
      | succ ms => exact .pause h

theorem Closes.deliver_deliver (h : Closes closed coming) (buffered : List UInt8) :
    Inbound.deliver (Inbound.deliver coming buffered closed).2.2
        (Inbound.deliver coming buffered closed).1 (Inbound.deliver coming buffered closed).2.1 =
      Inbound.deliver coming buffered closed := by
  induction h generalizing buffered with
  | done | close => rfl
  | bytes _ ih => exact ih _
  | @pause ms coming _ ih =>
      cases ms with
      | zero => exact ih _
      | succ ms => rfl

theorem settle_settle (h : Closes s.closed s.coming) : s.settle.settle = s.settle := by
  simp only [settle, h.deliver_deliver]

/-- An answer that comes from the bytes at hand is the one that all the bytes give. -/
theorem poll_eq_readFront (h : poll maxLen s = some (answer, t))
    (hcloses : Closes s.closed s.coming) :
    (answer, t.left) = readFront maxLen s.left ∧ t.closed = s.closed ∧ t.coming = s.coming := by
  unfold poll at h
  split at h
  · next payload rest hscan =>
      cases h
      refine ⟨?_, rfl, rfl⟩
      simp only [readFront, left, scan_append_of_frame hscan]
  · next len rest hscan =>
      cases h
      refine ⟨?_, rfl, rfl⟩
      simp only [readFront, left, scan_append_of_oversized hscan]
  · next e hscan =>
      split at h
      · next hclosed =>
          cases h
          obtain ⟨now, buffered, closed, coming⟩ := s
          cases hclosed
          cases hcloses
          refine ⟨?_, rfl, rfl⟩
          simp only at hscan
          simp only [readFront, left, arriving, List.append_nil, hscan]
      · cases h

/-- What a read of a stream that ends comes to: it runs out of time, which it can only if the
writing side pauses that long, or it answers what all the bytes give. -/
inductive Comes (limit : Duration) (deadline maxLen : Nat) (s : Inbound) :
    Except FrameError Message → Inbound → Prop
  | late {t : Inbound} : deadline ≤ s.now + waits s.coming →
      Comes limit deadline maxLen s (.error (.deadline limit)) t
  | inTime {answer : Except FrameError Message} {t : Inbound} :
      (answer, t.left) = readFront maxLen s.left → Closes t.closed t.coming →
      waits t.coming ≤ waits s.coming → Comes limit deadline maxLen s answer t

theorem Comes.of_later {s' : Inbound} (h : Comes limit deadline maxLen s' answer t)
    (hleft : s'.left = s.left) (hnow : s'.now + waits s'.coming = s.now + waits s.coming)
    (hwaits : waits s'.coming ≤ waits s.coming) : Comes limit deadline maxLen s answer t := by
  cases h with
  | late hms => exact .late (hnow ▸ hms)
  | inTime hfront hcloses hle => exact .inTime (hleft ▸ hfront) hcloses (Nat.le_trans hle hwaits)

theorem comes_of_poll (h : poll maxLen s = some (answer, t)) (hcloses : Closes s.closed s.coming) :
    Comes limit deadline maxLen s answer t := by
  obtain ⟨hfront, hclosed, hcoming⟩ := poll_eq_readFront h hcloses
  refine .inTime hfront ?_ (Nat.le_of_eq (congrArg waits hcoming))
  rw [hclosed, hcoming]
  exact hcloses

theorem comes_of_poll_settle (h : poll maxLen s.settle = some (answer, t))
    (hcloses : Closes s.closed s.coming) : Comes limit deadline maxLen s answer t :=
  (comes_of_poll h (hcloses.deliver _)).of_later (settle_left s)
    (congrArg (s.now + ·) (settle_waits s)) (Nat.le_of_eq (settle_waits s))

/-- A read that waits cannot be answered yet, as it could if the writing side closed at once. -/
theorem await_comes (hcloses : Closes closed coming)
    (hpoll : poll maxLen (settle ⟨now, buffered, closed, coming⟩) = none) :
    Comes limit deadline maxLen ⟨now, buffered, closed, coming⟩
      (await limit deadline maxLen now buffered closed coming).1
      (await limit deadline maxLen now buffered closed coming).2 := by
  induction hcloses generalizing now buffered with
  | done | close =>
      simp only [settle, deliver, poll] at hpoll
      split at hpoll <;> simp at hpoll
  | @bytes bs coming hcoming ih =>
      rw [await]
      exact (ih hpoll).of_later (List.append_assoc _ _ _) rfl (Nat.le_refl _)
  | @pause ms coming hcoming ih =>
      have hleft : left ⟨now + ms, buffered, false, coming⟩ =
        left ⟨now, buffered, false, .pause ms :: coming⟩ := rfl
      have hwaits : waits (.pause ms :: coming) = ms + waits coming := rfl
      rw [await]
      split
      · simp only
        split
        · next answer hanswer =>
            exact (comes_of_poll_settle hanswer hcoming).of_later hleft
              (by simp only [hwaits]; omega) (by simp only [hwaits]; omega)
        · next hnone =>
            exact (ih hnone).of_later hleft
              (by simp only [hwaits]; omega) (by simp only [hwaits]; omega)
      · exact .late (by simp only [hwaits]; omega)

theorem read_comes (hcloses : Closes s.closed s.coming) (ms maxLen : Nat) :
    Comes (.ofMillis ms) (s.now + ms) maxLen s (s.read ms maxLen).1 (s.read ms maxLen).2 := by
  unfold read
  split
  · next answer hanswer => exact comes_of_poll hanswer hcloses
  · next hnone =>
      split
      · next hms => exact .late (by omega)
      · simp only
        split
        · next answer hanswer => exact comes_of_poll_settle hanswer hcloses
        · next hlater =>
            refine (await_comes (hcloses.deliver _) ?_).of_later (settle_left s)
              (congrArg (s.now + ·) (settle_waits s)) (Nat.le_of_eq (settle_waits s))
            exact (congrArg (poll maxLen) (settle_settle hcloses)).trans hlater

/-- One read, with the stream before and after it. -/
structure Reading where
  before : Inbound
  answer : Except FrameError Message
  after : Inbound

/-- The reads that `readMany` makes. -/
def readings (ms maxLen : Nat) : Nat → Inbound → List Reading
  | 0, _ => []
  | n + 1, s =>
    let r : Reading := ⟨s, (s.read ms maxLen).1, (s.read ms maxLen).2⟩
    r :: if goesOn r.answer then readings ms maxLen n r.after else []

theorem readMany_eq_map (ms maxLen n : Nat) (s : Inbound) :
    readMany ms maxLen n s = (readings ms maxLen n s).map fun r => (r.answer, r.after.now) := by
  induction n generalizing s with
  | zero => rfl
  | succ n ih =>
      simp only [readMany, readings, List.map_cons]
      split
      · rw [ih]
      · rfl

/-- Whether none of the reads runs out of time. -/
def IsInTime (ms maxLen n : Nat) (s : Inbound) : Prop :=
  ∀ r ∈ readings ms maxLen n s, r.answer ≠ .error (.deadline (.ofMillis ms))

theorem isInTime_succ : IsInTime ms maxLen (n + 1) s ↔
    (s.read ms maxLen).1 ≠ .error (.deadline (.ofMillis ms)) ∧
      (goesOn (s.read ms maxLen).1 = true → IsInTime ms maxLen n (s.read ms maxLen).2) := by
  rw [IsInTime, readings, List.forall_mem_cons]
  refine and_congr_right fun _ => ?_
  split
  · next hgoes => exact ⟨fun h _ => h, fun h => h hgoes⟩
  · next hgoes => simp [hgoes]

theorem readFront_ne_deadline (maxLen : Nat) (bs : List UInt8) (limit : Duration) :
    (readFront maxLen bs).1 ≠ .error (.deadline limit) := by
  unfold readFront
  split
  · exact mapError_decode_ne nofun
  · nofun
  · nofun

/-- A read in time answers what all the bytes give, those to come included. -/
theorem read_inTime (hcloses : Closes s.closed s.coming)
    (hin : (s.read ms maxLen).1 ≠ .error (.deadline (.ofMillis ms))) :
    ((s.read ms maxLen).1, (s.read ms maxLen).2.left) = readFront maxLen s.left ∧
      Closes (s.read ms maxLen).2.closed (s.read ms maxLen).2.coming := by
  have h := read_comes hcloses ms maxLen
  generalize (s.read ms maxLen).1 = answer, (s.read ms maxLen).2 = t at h hin
  cases h with
  | late => exact absurd rfl hin
  | inTime hfront hcloses' _ => exact ⟨hfront, hcloses'⟩

/-- In time, the answers are a function of the bytes: of no use is where they were cut. -/
theorem readMany_eq_answers (hcloses : Closes s.closed s.coming) (hin : IsInTime ms maxLen n s) :
    (readMany ms maxLen n s).map Prod.fst = answers maxLen n s.left := by
  induction n generalizing s with
  | zero => rfl
  | succ n ih =>
      obtain ⟨hfirst, hthen⟩ := isInTime_succ.mp hin
      obtain ⟨hfront, hcloses'⟩ := read_inTime hcloses hfirst
      simp only [readMany, answers, List.map_cons, ← hfront]
      split
      · next hgoes => rw [ih hcloses' (hthen hgoes)]
      · rfl

theorem isInTime_of_waits_lt (hcloses : Closes s.closed s.coming) (hms : waits s.coming < ms)
    (maxLen n : Nat) : IsInTime ms maxLen n s := by
  induction n generalizing s with
  | zero => nofun
  | succ n ih =>
      have h := read_comes hcloses ms maxLen
      rw [isInTime_succ]
      generalize (s.read ms maxLen).1 = answer, (s.read ms maxLen).2 = t at h
      cases h with
      | late hlate => omega
      | inTime hfront hcloses' hwaits =>
          refine ⟨fun hdeadline => readFront_ne_deadline maxLen s.left (.ofMillis ms) ?_,
            fun _ => ih hcloses' (by omega)⟩
          exact (congrArg Prod.fst hfront).symm.trans hdeadline

theorem read_aligned (hcloses : Closes s.closed s.coming)
    (hin : (s.read ms maxLen).1 ≠ .error (.deadline (.ofMillis ms))) :
    Aligned maxLen s.left (s.read ms maxLen).1 (s.read ms maxLen).2.left := by
  have h := readFront_aligned maxLen s.left
  rw [← (read_inTime hcloses hin).1] at h
  exact h

theorem aligned_of_mem_readings (hcloses : Closes s.closed s.coming) {r : Reading}
    (hr : r ∈ readings ms maxLen n s) : r.answer = .error (.deadline (.ofMillis ms)) ∨
      Aligned maxLen r.before.left r.answer r.after.left := by
  by_cases hin : r.answer = .error (.deadline (.ofMillis ms))
  · exact .inl hin
  · refine .inr ?_
    induction n generalizing s with
    | zero => nomatch hr
    | succ n ih =>
        rw [readings, List.mem_cons] at hr
        obtain rfl | hr := hr
        · exact read_aligned hcloses hin
        · split at hr
          · next hgoes =>
              refine ih (read_inTime hcloses ?_).2 hr
              intro hdeadline
              simp only [hdeadline, goesOn] at hgoes
              cases hgoes
          · cases hr

/-- Reads in time come to the end of the stream, and each but the last takes something. -/
theorem exists_last_of_isInTime (hcloses : Closes s.closed s.coming)
    (hin : IsInTime ms maxLen n s) (hlen : s.left.length < n) :
    ∃ rs last e, readings ms maxLen n s = rs ++ [last] ∧ last.answer = .error (.stream e) ∧
      ∀ r ∈ rs, goesOn r.answer = true := by
  induction n generalizing s with
  | zero => exact absurd hlen (Nat.not_lt_zero _)
  | succ n ih =>
      obtain ⟨hfirst, hthen⟩ := isInTime_succ.mp hin
      obtain ⟨hfront, hcloses'⟩ := read_inTime hcloses hfirst
      have hlimit limit : (s.read ms maxLen).1 ≠ .error (.deadline limit) := by
        rw [congrArg Prod.fst hfront]
        exact readFront_ne_deadline maxLen s.left limit
      rw [readings]
      split
      · next hgoes =>
          have hshorter := (read_aligned hcloses hfirst).length_lt hgoes hlimit
          obtain ⟨rs, last, e, hreadings, hlast, hall⟩ := ih hcloses' (hthen hgoes) (by omega)
          refine ⟨_ :: rs, last, e, congrArg _ hreadings, hlast, ?_⟩
          exact List.forall_mem_cons.mpr ⟨hgoes, hall⟩
      · next hstop =>
          obtain ⟨e, he⟩ : ∃ e, (s.read ms maxLen).1 = .error (.stream e) := by
            generalize (s.read ms maxLen).1 = answer at hstop hlimit
            match answer with
            | .error (.stream e) => exact ⟨e, rfl⟩
            | .error (.deadline limit) => exact absurd rfl (hlimit limit)
            | .ok _ | .error (.tooLong _ _) | .error (.undecodable _) => exact absurd rfl hstop
          exact ⟨[], _, e, rfl, he, nofun⟩

/-- How a stream is cut up says nothing about what is read from it. The answers of two readers
in time are the same, each of them takes a frame or the length of one, and the last one says
where the stream has ended. -/
theorem readMany_decided_by_bytes {coming coming' : List Arrival} (hcloses : Closes false coming)
    (hcloses' : Closes false coming') (hbytes : arriving coming = arriving coming')
    (ms ms' maxLen n : Nat) :
    (IsInTime ms maxLen n { coming } → IsInTime ms' maxLen n { coming := coming' } →
      (readMany ms maxLen n { coming }).map Prod.fst =
        (readMany ms' maxLen n { coming := coming' }).map Prod.fst) ∧
    (waits coming < ms → IsInTime ms maxLen n { coming }) ∧
    readMany ms maxLen n { coming } =
      (readings ms maxLen n { coming }).map (fun r => (r.answer, r.after.now)) ∧
    (IsInTime ms maxLen n { coming } →
      (∀ r ∈ readings ms maxLen n { coming },
        Aligned maxLen r.before.left r.answer r.after.left) ∧
      ((arriving coming).length < n → ∃ rs last e,
        readings ms maxLen n { coming } = rs ++ [last] ∧
          last.answer = .error (.stream e) ∧ ∀ r ∈ rs, goesOn r.answer = true)) ∧
    StreamError.unexpectedEnd.text = "unexpected end of file" ∧
    StreamError.earlyEnd.text = "early eof" := by
  refine ⟨fun hin hin' => ?_, fun hms => isInTime_of_waits_lt hcloses hms maxLen n,
    readMany_eq_map ms maxLen n _,
    fun hin => ⟨fun r hr => ?_, exists_last_of_isInTime hcloses hin⟩, rfl, rfl⟩
  · rw [readMany_eq_answers hcloses hin, readMany_eq_answers hcloses' hin']
    exact congrArg (answers maxLen n) hbytes
  · exact (aligned_of_mem_readings hcloses hr).resolve_left (hin r hr)

/-- A length above the limit, a payload that is no message and one that breaks off, cut inside
the first length and with an empty piece. -/
theorem readMany_in_pieces :
    let pieces : List Arrival := [.bytes [0], .pause 3, .bytes [9, 0, 1], .bytes [], .pause 4,
      .bytes [0xc0, 0, 2, 0x81], .close]
    (readMany 8 4 9 { coming := pieces }).map Prod.fst =
      [.error (.tooLong 9 4), .error (.undecodable .malformed), .error (.stream .earlyEnd)] := by
  intro pieces
  have hpieces : Closes false pieces :=
    .bytes (.pause (.bytes (.bytes (.pause (.bytes .close)))))
  have hwhole : Closes false [.bytes [0, 9, 0, 1, 0xc0, 0, 2, 0x81], .close] := .bytes .close
  have hread := readMany_decided_by_bytes hpieces hwhole rfl 8 1 4 9
  rw [hread.1 (hread.2.1 (by decide)) (isInTime_of_waits_lt hwhole (by decide) 4 9)]
  decide +kernel

end Inbound

end HookRelay.Wire
