import HookRelay.Proofs.Wire.Arriving
import Mathlib.Data.List.Chain

namespace HookRelay.Wire

/-- How many bytes a read has to wait for: the length of a frame, and its payload unless that
is longer than allowed. -/
def needed (maxLen : Nat) : List UInt8 → Nat
  | hi :: lo :: _ => if beValue [hi, lo] ≤ maxLen then 2 + beValue [hi, lo] else 2
  | _ => 2

/-- Whether a read has all the bytes that it waits for. -/
def IsWhole (maxLen : Nat) (bs : List UInt8) : Prop := needed maxLen bs ≤ bs.length

instance (maxLen : Nat) (bs : List UInt8) : Decidable (IsWhole maxLen bs) :=
  inferInstanceAs (Decidable (needed maxLen bs ≤ bs.length))

variable {maxLen : Nat} {bs more : List UInt8}

theorem exists_of_isWhole (h : IsWhole maxLen bs) : ∃ hi lo rest, bs = hi :: lo :: rest := by
  match bs, h with
  | [], h | [_], h => simp [IsWhole, needed] at h
  | hi :: lo :: rest, _ => exact ⟨hi, lo, rest, rfl⟩

theorem needed_append (h : IsWhole maxLen bs) (more : List UInt8) :
    needed maxLen (bs ++ more) = needed maxLen bs := by
  obtain ⟨hi, lo, rest, rfl⟩ := exists_of_isWhole h
  rfl

theorem IsWhole.append (h : IsWhole maxLen bs) (more : List UInt8) :
    IsWhole maxLen (bs ++ more) := by
  rw [IsWhole, needed_append h, List.length_append]
  exact Nat.le_add_right_of_le h

theorem scan_of_not_isWhole (h : ¬IsWhole maxLen bs) : ∃ e, scan maxLen bs = .incomplete e := by
  match bs, h with
  | [], _ | [_], _ => exact ⟨_, rfl⟩
  | hi :: lo :: rest, h =>
    simp only [IsWhole, needed, List.length_cons] at h
    refine ⟨.earlyEnd, ?_⟩
    simp only [scan, List.length_take]
    split at h
    · rw [if_neg (by omega), if_neg (by omega)]
    · omega

theorem scan_of_isWhole (h : IsWhole maxLen bs) :
    (∃ payload, scan maxLen bs = .frame payload (bs.drop (needed maxLen bs))) ∨
      ∃ len, scan maxLen bs = .oversized len (bs.drop (needed maxLen bs)) := by
  obtain ⟨hi, lo, rest, rfl⟩ := exists_of_isWhole h
  simp only [IsWhole, needed, List.length_cons] at h
  simp only [scan, needed, List.length_take]
  generalize beValue [hi, lo] = len at h ⊢
  split at h
  · next hlen =>
    refine .inl ⟨rest.take len, ?_⟩
    rw [if_neg (Nat.not_lt.mpr hlen), if_pos (by omega), if_pos hlen, Nat.add_comm]
    rfl
  · next hlen =>
    refine .inr ⟨len, ?_⟩
    rw [if_pos (Nat.not_le.mp hlen), if_neg hlen]
    rfl

theorem readFront_append (h : IsWhole maxLen bs) (more : List UInt8) :
    readFront maxLen (bs ++ more) =
      ((readFront maxLen bs).1, bs.drop (needed maxLen bs) ++ more) := by
  rcases scan_of_isWhole h with ⟨payload, hscan⟩ | ⟨len, hscan⟩
  · rw [readFront, scan_append_of_frame hscan, readFront, hscan]
  · rw [readFront, scan_append_of_oversized hscan, readFront, hscan]

theorem readFront_snd (h : IsWhole maxLen bs) :
    (readFront maxLen bs).2 = bs.drop (needed maxLen bs) := by
  rcases scan_of_isWhole h with ⟨payload, hscan⟩ | ⟨len, hscan⟩
  · rw [readFront, hscan]
  · rw [readFront, hscan]

namespace Inbound

/-- The bytes that the writing side sends within `t` milliseconds. -/
def arrivedIn : Nat → List Arrival → List UInt8
  | t, .bytes bs :: coming => bs ++ arrivedIn t coming
  | t, .close :: coming => arrivedIn t coming
  | t, .pause ms :: coming => if ms ≤ t then arrivedIn (t - ms) coming else []
  | _, [] => []

/-- Whether the writing side closes within `t` milliseconds. -/
def closesIn : Nat → List Arrival → Bool
  | t, .bytes _ :: coming => closesIn t coming
  | _, .close :: _ => true
  | t, .pause ms :: coming => if ms ≤ t then closesIn (t - ms) coming else false
  | _, [] => false

/-- The bytes that are not read yet and have arrived by an instant of the clock. -/
def bytesBy (s : Inbound) (t : Nat) : List UInt8 := s.buffered ++ arrivedIn (t - s.now) s.coming

/-- Whether the writing side has closed by an instant of the clock. -/
def closedBy (s : Inbound) (t : Nat) : Bool := s.closed || closesIn (t - s.now) s.coming

/-- After it has closed, the writing side sends nothing. -/
inductive IsOrderly : Bool → List Arrival → Prop
  | nil {closed : Bool} : IsOrderly closed []
  | bytes {bs : List UInt8} {coming : List Arrival} :
      IsOrderly false coming → IsOrderly false (.bytes bs :: coming)
  | pause {closed : Bool} {ms : Nat} {coming : List Arrival} :
      IsOrderly closed coming → IsOrderly closed (.pause ms :: coming)
  | close {closed : Bool} {coming : List Arrival} :
      IsOrderly true coming → IsOrderly closed (.close :: coming)

/-- Whether a read that has not ended would end at an instant of the clock, if it does not run
out of time. -/
def Decided (maxLen : Nat) (s : Inbound) (t : Nat) : Prop :=
  IsWhole maxLen (s.bytesBy t) ∨ s.closedBy t = true

variable {s s' t : Inbound} {coming : List Arrival} {buffered : List UInt8} {closed : Bool}
  {ms now deadline u v : Nat} {limit : Duration} {answer : Except FrameError Message}

/-- The writing side has had its turn: what it does at this instant is done. -/
structure HasSettled (coming : List Arrival) (buffered : List UInt8) (closed : Bool)
    (r : List UInt8 × Bool × List Arrival) : Prop where
  bytes : r.1 = buffered ++ arrivedIn 0 coming
  isClosed : r.2.1 = (closed || closesIn 0 coming)
  laterBytes : ∀ u, r.1 ++ arrivedIn u r.2.2 = buffered ++ arrivedIn u coming
  laterClosed : ∀ u, (r.2.1 || closesIn u r.2.2) = (closed || closesIn u coming)

theorem HasSettled.of_eq {coming' : List Arrival} {buffered' : List UInt8} {closed' : Bool}
    {r : List UInt8 × Bool × List Arrival} (h : HasSettled coming' buffered' closed' r)
    (hbytes : ∀ u, buffered' ++ arrivedIn u coming' = buffered ++ arrivedIn u coming)
    (hclosed : ∀ u, (closed' || closesIn u coming') = (closed || closesIn u coming)) :
    HasSettled coming buffered closed r where
  bytes := h.bytes.trans (hbytes 0)
  isClosed := h.isClosed.trans (hclosed 0)
  laterBytes u := (h.laterBytes u).trans (hbytes u)
  laterClosed u := (h.laterClosed u).trans (hclosed u)

theorem hasSettled_deliver (coming : List Arrival) (buffered : List UInt8) (closed : Bool) :
    HasSettled coming buffered closed (deliver coming buffered closed) := by
  fun_induction deliver coming buffered closed with
  | case1 bs coming buffered closed ih =>
      exact ih.of_eq (fun u => List.append_assoc buffered bs _) fun _ => rfl
  | case2 coming buffered closed ih =>
      refine ih.of_eq (fun _ => rfl) fun u => ?_
      rw [closesIn, Bool.true_or, Bool.or_true]
  | case3 coming buffered closed ih =>
      refine ih.of_eq (fun u => ?_) fun u => ?_
      · rw [arrivedIn, if_pos (Nat.zero_le u), Nat.sub_zero]
      · rw [closesIn, if_pos (Nat.zero_le u), Nat.sub_zero]
  | case4 coming buffered closed hbytes hclose hpause =>
      obtain ⟨hnothing, hopen⟩ : arrivedIn 0 coming = [] ∧ closesIn 0 coming = false := by
        cases coming with
        | nil => exact ⟨rfl, rfl⟩
        | cons a coming =>
            cases a with
            | bytes bs => exact absurd rfl (hbytes bs coming)
            | close => exact absurd rfl (hclose coming)
            | pause ms =>
                cases ms with
                | zero => exact absurd rfl (hpause coming)
                | succ ms => exact ⟨rfl, rfl⟩
      exact ⟨by simp [hnothing], by simp [hopen], fun _ => rfl, fun _ => rfl⟩

theorem settle_buffered (s : Inbound) : s.settle.buffered = s.bytesBy s.now := by
  rw [bytesBy, Nat.sub_self]
  exact (hasSettled_deliver s.coming s.buffered s.closed).bytes

theorem settle_closed (s : Inbound) : s.settle.closed = s.closedBy s.now := by
  rw [closedBy, Nat.sub_self]
  exact (hasSettled_deliver s.coming s.buffered s.closed).isClosed

theorem bytesBy_settle (s : Inbound) (u : Nat) : s.settle.bytesBy u = s.bytesBy u :=
  (hasSettled_deliver s.coming s.buffered s.closed).laterBytes _

theorem closedBy_settle (s : Inbound) (u : Nat) : s.settle.closedBy u = s.closedBy u :=
  (hasSettled_deliver s.coming s.buffered s.closed).laterClosed _

theorem IsOrderly.deliver (h : IsOrderly closed coming) (buffered : List UInt8) :
    IsOrderly (deliver coming buffered closed).2.1 (deliver coming buffered closed).2.2 := by
  induction h generalizing buffered with
  | nil => exact .nil
  | bytes _ ih => exact ih _
  | @pause closed ms coming h ih =>
      cases ms with
      | zero => exact ih _
      | succ ms => exact .pause h
  | close _ ih => exact ih _

theorem IsOrderly.arrivedIn_eq_nil (h : IsOrderly true coming) (u : Nat) :
    arrivedIn u coming = [] := by
  generalize hclosed : true = closed at h
  induction h generalizing u with
  | nil => rfl
  | bytes => cases hclosed
  | pause _ ih =>
      rw [arrivedIn, ih _ hclosed, ite_self]
  | close _ ih => exact ih u rfl

theorem IsOrderly.arrivedIn_eq (h : IsOrderly closed coming)
    (hclosed : (closed || closesIn u coming) = true) (huv : u ≤ v) :
    arrivedIn v coming = arrivedIn u coming := by
  induction h generalizing u v with
  | nil => rfl
  | bytes _ ih => rw [arrivedIn, arrivedIn, ih hclosed huv]
  | @pause closed ms coming h ih =>
      rw [arrivedIn, arrivedIn]
      cases closed with
      | true => rw [h.arrivedIn_eq_nil, h.arrivedIn_eq_nil, ite_self, ite_self]
      | false =>
          simp only [closesIn, Bool.false_or, Bool.if_false_right, Bool.and_eq_true,
            decide_eq_true_iff] at hclosed
          rw [if_pos hclosed.1, if_pos (Nat.le_trans hclosed.1 huv)]
          exact ih hclosed.2 (Nat.sub_le_sub_right huv ms)
  | close h => rw [arrivedIn, arrivedIn, h.arrivedIn_eq_nil, h.arrivedIn_eq_nil]

theorem isPrefix_arrivedIn (coming : List Arrival) (huv : u ≤ v) :
    arrivedIn u coming <+: arrivedIn v coming := by
  fun_induction arrivedIn u coming generalizing v with
  | case1 u bs coming ih => exact (List.prefix_append_right_inj bs).mpr (ih huv)
  | case2 u coming ih => exact ih huv
  | case3 u ms coming hms ih =>
      rw [arrivedIn, if_pos (Nat.le_trans hms huv)]
      exact ih (Nat.sub_le_sub_right huv ms)
  | case4 => exact List.nil_prefix
  | case5 => exact List.nil_prefix

theorem isPrefix_bytesBy (s : Inbound) (huv : u ≤ v) : s.bytesBy u <+: s.bytesBy v :=
  (List.prefix_append_right_inj s.buffered).mpr
    (isPrefix_arrivedIn s.coming (Nat.sub_le_sub_right huv s.now))

theorem poll_eq (maxLen : Nat) (s : Inbound) : poll maxLen s =
    if IsWhole maxLen s.buffered ∨ s.closed = true then
      some ((readFront maxLen s.buffered).1, { s with buffered := (readFront maxLen s.buffered).2 })
    else none := by
  unfold poll readFront
  by_cases hwhole : IsWhole maxLen s.buffered
  · rw [if_pos (.inl hwhole)]
    rcases scan_of_isWhole hwhole with ⟨payload, hscan⟩ | ⟨len, hscan⟩
    · rw [hscan]
    · rw [hscan]
  · obtain ⟨e, hscan⟩ := scan_of_not_isWhole hwhole
    rw [hscan]
    simp only [hwhole, false_or]

/-- How a read ends that is begun in the state `s`. -/
inductive Ends (limit : Duration) (deadline maxLen : Nat) (s : Inbound) :
    Except FrameError Message → Inbound → Prop
  /-- It is decided at this instant and at none before. A frame is taken off the bytes. -/
  | decided {t : Inbound} : s.now ≤ t.now → t.now = s.now ∨ t.now < deadline →
      s.Decided maxLen t.now → (∀ u, s.now ≤ u → u < t.now → ¬s.Decided maxLen u) →
      (IsWhole maxLen (s.bytesBy t.now) → ∀ u, t.now ≤ u →
        t.bytesBy u = (s.bytesBy u).drop (needed maxLen (s.bytesBy t.now)) ∧
          t.closedBy u = s.closedBy u) →
      IsOrderly t.closed t.coming →
      Ends limit deadline maxLen s (readFront maxLen (s.bytesBy t.now)).1 t
  | late {t : Inbound} : t.now = deadline →
      (∀ u, s.now ≤ u → u < deadline → ¬s.Decided maxLen u) →
      IsOrderly t.closed t.coming →
      Ends limit deadline maxLen s (.error (.deadline limit)) t

/-- A read that has waited goes on as one that is begun later. -/
theorem Ends.of_later (h : Ends limit deadline maxLen s' answer t) (hnow : s.now ≤ s'.now)
    (hearly : s'.now = s.now ∨ s'.now < deadline)
    (hbytes : ∀ u, s'.now ≤ u → s'.bytesBy u = s.bytesBy u)
    (hclosed : ∀ u, s'.now ≤ u → s'.closedBy u = s.closedBy u)
    (hbefore : ∀ u, s.now ≤ u → u < s'.now → ¬s.Decided maxLen u) :
    Ends limit deadline maxLen s answer t := by
  have hdecided : ∀ u, s'.now ≤ u → (s'.Decided maxLen u ↔ s.Decided maxLen u) := by
    intro u hu
    rw [Decided, Decided, hbytes u hu, hclosed u hu]
  have hnone : ∀ v, (∀ u, s'.now ≤ u → u < v → ¬s'.Decided maxLen u) →
      ∀ u, s.now ≤ u → u < v → ¬s.Decided maxLen u := by
    intro v hv u hu huv
    by_cases hlater : s'.now ≤ u
    · rw [← hdecided u hlater]
      exact hv u hlater huv
    · exact hbefore u hu (Nat.not_le.mp hlater)
  cases h with
  | decided hle hlt hend hfirst htaken horderly =>
      rw [hbytes _ hle] at htaken ⊢
      refine .decided (Nat.le_trans hnow hle) (by omega) ((hdecided _ hle).mp hend)
        (hnone _ hfirst) (fun hwhole u hu => ?_) horderly
      rw [← hbytes u (Nat.le_trans hle hu), ← hclosed u (Nat.le_trans hle hu)]
      exact htaken hwhole u hu
  | late heq hfirst horderly => exact .late heq (hnone _ hfirst) horderly

theorem Ends.of_same (h : Ends limit deadline maxLen s' answer t) (hnow : s'.now = s.now)
    (hbytes : ∀ u, s'.bytesBy u = s.bytesBy u) (hclosed : ∀ u, s'.closedBy u = s.closedBy u) :
    Ends limit deadline maxLen s answer t :=
  h.of_later (Nat.le_of_eq hnow.symm) (.inl hnow) (fun u _ => hbytes u) (fun u _ => hclosed u)
    fun _ hu hlt => absurd hu (Nat.not_le.mpr (hnow ▸ hlt))

theorem Ends.of_settle (h : Ends limit deadline maxLen s.settle answer t) :
    Ends limit deadline maxLen s answer t :=
  h.of_same rfl (bytesBy_settle s) (closedBy_settle s)

theorem ends_of_poll (h : poll maxLen s = some (answer, t))
    (horderly : IsOrderly s.closed s.coming) : Ends limit deadline maxLen s answer t := by
  rw [poll_eq] at h
  split at h <;> cases h
  next hready =>
  have hnow : s.bytesBy s.now = s.buffered ++ arrivedIn 0 s.coming := by
    rw [bytesBy, Nat.sub_self]
  have hfirst : ∀ u, s.now ≤ u → u < s.now → ¬s.Decided maxLen u :=
    fun u hu hlt => absurd hu (Nat.not_le.mpr hlt)
  by_cases hwhole : IsWhole maxLen s.buffered
  · have hanswer : (readFront maxLen s.buffered).1 = (readFront maxLen (s.bytesBy s.now)).1 := by
      rw [hnow, readFront_append hwhole]
    rw [hanswer, readFront_snd hwhole]
    refine .decided (t := { s with buffered := s.buffered.drop (needed maxLen s.buffered) })
      (Nat.le_refl _) (.inl rfl) (.inl (hnow ▸ hwhole.append _)) hfirst
      (fun _ u _ => ⟨?_, rfl⟩) horderly
    rw [hnow, needed_append hwhole, bytesBy, bytesBy, List.drop_append_of_le_length hwhole]
  · -- the stream has ended, so nothing more arrives
    have hclosed : s.closed = true := hready.resolve_left hwhole
    have hquiet : IsOrderly true s.coming := hclosed ▸ horderly
    have hover : s.bytesBy s.now = s.buffered := by
      rw [hnow, hquiet.arrivedIn_eq_nil, List.append_nil]
    generalize (readFront maxLen s.buffered).2 = rest
    rw [← hover]
    refine .decided (t := { s with buffered := rest }) (Nat.le_refl _) (.inl rfl) (.inr ?_) hfirst
      (fun hwhole' => absurd (hover ▸ hwhole') hwhole) horderly
    rw [closedBy, hclosed, Bool.true_or]

theorem ends_of_poll_settle (h : poll maxLen s.settle = some (answer, t))
    (horderly : IsOrderly s.closed s.coming) : Ends limit deadline maxLen s answer t :=
  (ends_of_poll h (horderly.deliver _)).of_settle

theorem decided_pause_iff (hu : now ≤ u) (hlt : u < now + ms) :
    Decided maxLen ⟨now, buffered, closed, .pause ms :: coming⟩ u ↔
      Decided maxLen ⟨now, buffered, closed, .pause ms :: coming⟩ now := by
  simp only [Decided, bytesBy, closedBy, arrivedIn, closesIn]
  rw [if_neg (by omega), if_neg (by omega), if_neg (by omega), if_neg (by omega)]

theorem poll_settle_eq_none (h : poll maxLen s.settle = none) : ¬s.Decided maxLen s.now := by
  rw [poll_eq, settle_buffered, settle_closed] at h
  split at h
  · cases h
  · assumption

theorem await_ends (horderly : IsOrderly closed coming) (hearly : now < deadline)
    (hopen : ¬Decided maxLen ⟨now, buffered, closed, coming⟩ now) :
    Ends limit deadline maxLen ⟨now, buffered, closed, coming⟩
      (await limit deadline maxLen now buffered closed coming).1
      (await limit deadline maxLen now buffered closed coming).2 := by
  induction horderly generalizing now buffered with
  | nil => exact .late rfl (fun _ _ _ => hopen) .nil
  | @bytes bs coming _ ih =>
      have hsame : ∀ u, bytesBy ⟨now, buffered ++ bs, false, coming⟩ u =
          bytesBy ⟨now, buffered, false, .bytes bs :: coming⟩ u :=
        fun u => List.append_assoc buffered bs _
      rw [await]
      refine (ih hearly ?_).of_same rfl hsame fun _ => rfl
      rwa [Decided, hsame now]
  | @pause closed ms coming horderly ih =>
      have hbefore : ∀ u, now ≤ u → u < now + ms →
          ¬Decided maxLen ⟨now, buffered, closed, .pause ms :: coming⟩ u :=
        fun u hu hlt => (decided_pause_iff hu hlt).not.mpr hopen
      have hbytes : ∀ u, now + ms ≤ u → bytesBy ⟨now + ms, buffered, closed, coming⟩ u =
          bytesBy ⟨now, buffered, closed, .pause ms :: coming⟩ u := by
        intro u hu
        simp only [bytesBy, arrivedIn]
        rw [if_pos (by omega), Nat.sub_add_eq]
      have hclosed : ∀ u, now + ms ≤ u → closedBy ⟨now + ms, buffered, closed, coming⟩ u =
          closedBy ⟨now, buffered, closed, .pause ms :: coming⟩ u := by
        intro u hu
        simp only [closedBy, closesIn]
        rw [if_pos (by omega), Nat.sub_add_eq]
      rw [await]
      split
      · next hlt =>
        have hlater : ∀ {answer t}, Ends limit deadline maxLen
            ⟨now + ms, buffered, closed, coming⟩ answer t →
            Ends limit deadline maxLen ⟨now, buffered, closed, .pause ms :: coming⟩ answer t :=
          fun h => h.of_later (Nat.le_add_right _ _) (.inr hlt) hbytes hclosed hbefore
        simp only
        split
        · next hanswer => exact hlater (ends_of_poll_settle hanswer horderly)
        · next hnone => exact hlater (ih hlt (poll_settle_eq_none hnone))
      · next hlate =>
        exact .late rfl (fun u hu hlt => hbefore u hu (by omega)) (.pause horderly)
  | @close closed coming _ ih =>
      have hsame : ∀ u, closedBy ⟨now, buffered, true, coming⟩ u =
          closedBy ⟨now, buffered, closed, .close :: coming⟩ u :=
        fun u => (Bool.true_or _).trans (Bool.or_true closed).symm
      rw [await]
      refine (ih hearly ?_).of_same rfl (fun _ => rfl) hsame
      rwa [Decided, hsame now]

theorem read_ends (horderly : IsOrderly s.closed s.coming) (ms maxLen : Nat) :
    Ends (.ofMillis ms) (s.now + ms) maxLen s (s.read ms maxLen).1 (s.read ms maxLen).2 := by
  unfold read
  split
  · next hanswer => exact ends_of_poll hanswer horderly
  · split
    · next hms =>
      exact .late (hms ▸ rfl) (fun u hu hlt => absurd hu (by omega)) horderly
    · next hms =>
      simp only
      split
      · next hanswer => exact ends_of_poll_settle hanswer horderly
      · next hnone =>
        refine (await_ends (horderly.deliver _) (by omega) ?_).of_settle
        have hopen := poll_settle_eq_none hnone
        rwa [Decided, ← bytesBy_settle, ← closedBy_settle] at hopen

/-- The last byte that a read waits for is there at an instant, and not before it. -/
structure CompleteAt (maxLen : Nat) (s : Inbound) (t : Nat) : Prop where
  started : s.now ≤ t
  whole : IsWhole maxLen (s.bytesBy t)
  first : ∀ u, s.now ≤ u → u < t → ¬IsWhole maxLen (s.bytesBy u)

/-- A read ends when its last byte is there, with what the bytes of the frame give, and takes
these bytes and no others. -/
structure Takes (maxLen : Nat) (r : Reading) (t : Nat) : Prop where
  instant : r.after.now = t
  complete : CompleteAt maxLen r.before t
  answer : r.answer = (readFront maxLen (r.before.bytesBy t)).1
  notLate : ∀ limit, r.answer ≠ .error (.deadline limit)
  rest : ∀ u, t ≤ u →
    r.after.bytesBy u = (r.before.bytesBy u).drop (needed maxLen (r.before.bytesBy t)) ∧
      r.after.closedBy u = r.before.closedBy u

/-- A read within `ms` milliseconds of its own start keeps to the clock. -/
structure Punctual (ms maxLen : Nat) (r : Reading) : Prop where
  /-- What is there is read at once, even where no time is given. -/
  atOnce : IsWhole maxLen r.before.buffered → Takes maxLen r r.before.now
  inTime : ∀ u, r.before.now ≤ u → u < r.before.now + ms →
    IsWhole maxLen (r.before.bytesBy u) →
    ∃ t, t ≤ u ∧ Takes maxLen r t
  /-- The bytes of a frame that is not whole by then put nothing off. -/
  late : ¬IsWhole maxLen (r.before.bytesBy (r.before.now + ms)) →
    r.before.closedBy (r.before.now + ms) = false →
    r.answer = .error (.deadline (.ofMillis ms)) ∧ r.after.now = r.before.now + ms

theorem closesIn_mono (coming : List Arrival) (huv : u ≤ v) (h : closesIn u coming = true) :
    closesIn v coming = true := by
  fun_induction closesIn u coming generalizing v with
  | case1 u bs coming ih => exact ih huv h
  | case2 => rfl
  | case3 u ms coming hms ih =>
      rw [closesIn, if_pos (Nat.le_trans hms huv)]
      exact ih (Nat.sub_le_sub_right huv ms) h
  | case4 => cases h
  | case5 => cases h

theorem Decided.mono (h : s.Decided maxLen u) (huv : u ≤ v) : s.Decided maxLen v := by
  rcases h with hwhole | hclosed
  · obtain ⟨more, hmore⟩ := isPrefix_bytesBy s huv
    exact .inl (hmore ▸ hwhole.append more)
  · rw [closedBy, Bool.or_eq_true] at hclosed
    refine .inr ((Bool.or_eq_true _ _).mpr (hclosed.imp_right ?_))
    exact closesIn_mono s.coming (Nat.sub_le_sub_right huv s.now)

theorem Ends.isOrderly (h : Ends limit deadline maxLen s answer t) :
    IsOrderly t.closed t.coming := by
  cases h with
  | decided _ _ _ _ _ horderly | late _ _ horderly => exact horderly

theorem Ends.takes (h : Ends limit deadline maxLen s answer t)
    (horderly : IsOrderly s.closed s.coming) (hstart : s.now ≤ u)
    (hwhole : IsWhole maxLen (s.bytesBy u))
    (hearly : u < deadline ∨ answer ≠ .error (.deadline limit)) :
    ∃ v, v ≤ u ∧ Takes maxLen ⟨s, answer, t⟩ v := by
  cases h with
  | decided hle hlt hend hfirst htaken _ =>
      have htu : t.now ≤ u := Nat.not_lt.mp fun hut => hfirst u hstart hut (.inl hwhole)
      have hwhole' : IsWhole maxLen (s.bytesBy t.now) := by
        rcases hend with hthen | hclosed
        · exact hthen
        · -- the stream has ended, so all that the frame needs is there
          rwa [bytesBy, ← horderly.arrivedIn_eq hclosed (Nat.sub_le_sub_right htu s.now)]
      exact ⟨t.now, htu, rfl, ⟨hle, hwhole',
        fun v hv hvt hbefore => hfirst v hv hvt (.inl hbefore)⟩,
        rfl, readFront_ne_deadline maxLen _, htaken hwhole'⟩
  | late _ hfirst _ =>
      rcases hearly with hlt | hne
      · exact absurd (.inl hwhole) (hfirst u hstart hlt)
      · exact absurd rfl hne

theorem Ends.late_of_open (h : Ends limit deadline maxLen s answer t) (hstart : s.now ≤ deadline)
    (hopen : ¬s.Decided maxLen deadline) :
    answer = .error (.deadline limit) ∧ t.now = deadline := by
  cases h with
  | decided _ hlt hend _ _ _ => exact absurd (hend.mono (by omega)) hopen
  | late hnow _ _ => exact ⟨rfl, hnow⟩

theorem read_of_isWhole (h : IsWhole maxLen s.buffered) (ms : Nat) :
    (s.read ms maxLen).1 = (readFront maxLen s.buffered).1 := by
  rw [read, poll_eq, if_pos (.inl h)]

theorem read_punctual (horderly : IsOrderly s.closed s.coming) (ms maxLen : Nat) :
    Punctual ms maxLen ⟨s, (s.read ms maxLen).1, (s.read ms maxLen).2⟩ := by
  have hends := read_ends horderly ms maxLen
  refine ⟨fun hwhole => ?_,
    fun u hstart hu hwhole => hends.takes horderly hstart hwhole (.inl hu),
    fun hwhole hclosed => hends.late_of_open (Nat.le_add_right _ _) ?_⟩
  · have hnotLate : (s.read ms maxLen).1 ≠ .error (.deadline (.ofMillis ms)) := by
      rw [read_of_isWhole hwhole]
      exact readFront_ne_deadline maxLen _ _
    obtain ⟨t, ht, htakes⟩ :=
      hends.takes horderly (Nat.le_refl _) (hwhole.append _) (.inr hnotLate)
    rwa [Nat.le_antisymm ht htakes.complete.started] at htakes
  · rintro (hwhole' | hclosed')
    · exact hwhole hwhole'
    · exact Bool.eq_false_iff.mp hclosed hclosed'

theorem punctual_of_mem_readings (horderly : IsOrderly s.closed s.coming) {n : Nat} {r : Reading}
    (hr : r ∈ readings ms maxLen n s) : Punctual ms maxLen r := by
  induction n generalizing s with
  | zero => nomatch hr
  | succ n ih =>
      rw [readings, List.mem_cons] at hr
      obtain rfl | hr := hr
      · exact read_punctual horderly ms maxLen
      · split at hr
        · exact ih (read_ends horderly ms maxLen).isOrderly hr
        · cases hr

theorem isChain_readings (ms maxLen n : Nat) (s : Inbound) :
    (readings ms maxLen n s).IsChain fun r r' => r'.before = r.after := by
  induction n generalizing s with
  | zero => exact .nil
  | succ n ih =>
      rw [readings]
      simp only
      split
      · cases n with
        | zero => exact .singleton _
        | succ n => exact .cons_cons rfl (ih _)
      · exact .singleton _

end Inbound

end HookRelay.Wire
