import HookRelay.Intake

namespace HookRelay

variable {α : Type}

theorem exists_of_bind_eq_ok {ε β : Type} {x : Except ε α} {f : α → Except ε β} {b : β}
    (h : x >>= f = .ok b) : ∃ a, x = .ok a ∧ f a = .ok b := by
  rcases x with e | a
  · cases h
  · exact ⟨a, rfl, h⟩

theorem Mailbox.eq_of_create {capacity : Nat} {m : Mailbox α} (h : create capacity = .ok m) :
    m = { capacity } := by
  unfold create at h
  split at h
  · cases h
  · split at h <;> cases h
    rfl

theorem Mailbox.take_eq_item_iff {m m' : Mailbox α} {a : α} :
    m.take = (.item a, m') ↔ m.items = a :: m'.items ∧ m' = { m with items := m'.items } := by
  cases hitems : m.items with
  | nil =>
      simp only [take, hitems, Prod.mk.injEq, reduceCtorEq, false_and, iff_false]
      split <;> simp
  | cons b rest =>
      simp only [take, hitems, Prod.mk.injEq, Taken.item.injEq, List.cons.injEq]
      constructor
      · rintro ⟨rfl, rfl⟩
        exact ⟨⟨rfl, rfl⟩, rfl⟩
      · rintro ⟨⟨rfl, rfl⟩, hm'⟩
        exact ⟨rfl, hm'.symm⟩

namespace Intake

variable {i i' j : Intake α} {ticket : Nat} {a : α} {t : Taken α}

theorem eq_of_create {capacity : Nat} (h : create capacity = .ok i) :
    i = { queue := { capacity } } := by
  unfold create at h
  rcases hcreate : (Mailbox.create capacity : Except CapacityError (Mailbox α)) with e | queue
  · rw [hcreate] at h
    cases h
  · rw [hcreate] at h
    cases h
    rw [Mailbox.eq_of_create hcreate]

theorem items_of_take (h : i.take = (.item a, i')) : i.queue.items = a :: i'.queue.items := by
  unfold take at h
  split at h
  · next queue htake =>
    cases h
    exact (Mailbox.take_eq_item_iff.mp htake).1
  · split at h <;> cases h
  · cases h

theorem items_bring (i : Intake α) (ticket : Nat) (a : α) :
    (i.bring ticket a).2.queue.items =
      i.queue.items ++ if (i.bring ticket a).1 = .accepted then [a] else [] := by
  unfold bring
  split
  · simp
  · next hlistening =>
    split
    · next hroom =>
      rw [Bool.not_eq_true, Bool.not_eq_false'] at hlistening
      rw [Bool.and_eq_true] at hroom
      simp [Mailbox.offer, hlistening, hroom.2]
    · simp

theorem exists_of_letIn (h : i.letIn = some (ticket, i')) :
    ∃ b, i.line = (ticket, b) :: i'.line ∧ i'.queue.items = i.queue.items ++ [b] := by
  unfold letIn at h
  split at h
  · cases h
  · next t b line hline =>
    split at h
    · next hroom =>
      rw [Bool.and_eq_true] at hroom
      cases h
      exact ⟨b, hline, by simp [Mailbox.offer, hroom.1, hroom.2]⟩
    · cases h

theorem queue_of_dismiss (h : i.dismiss = some (ticket, i')) : i'.queue = i.queue := by
  unfold dismiss at h
  split at h
  · cases h
  · split at h <;> cases h
    rfl

theorem exists_of_dismiss (h : i.dismiss = some (ticket, i')) :
    ∃ b, i.line = (ticket, b) :: i'.line := by
  unfold dismiss at h
  split at h
  · cases h
  · next t b line hline =>
    split at h <;> cases h
    exact ⟨b, hline⟩

/-- The item that an intake accepts when it is brought, with its sender's ticket. -/
def accepting (ticket : Nat) (a : α) (i : Intake α) : List (Nat × α) :=
  if (i.bring ticket a).1 = .accepted then [(ticket, a)] else []

/-- The item that is let in out of the line, with its sender's ticket. -/
def admitting (i : Intake α) : List (Nat × α) :=
  if i.letIn.isSome then i.line.take 1 else []

theorem items_bring_eq (ticket : Nat) (a : α) :
    (i.bring ticket a).2.queue.items = i.queue.items ++ (i.accepting ticket a).map (·.2) := by
  rw [items_bring, accepting]
  split <;> rfl

theorem admitting_of_letIn (h : i.letIn = some (ticket, i')) :
    ∃ a, i.line = (ticket, a) :: i'.line ∧ i.admitting = [(ticket, a)] ∧
      i'.queue.items = i.queue.items ++ [a] := by
  obtain ⟨a, hline, hitems⟩ := exists_of_letIn h
  refine ⟨a, hline, ?_, hitems⟩
  rw [admitting, h, hline]
  rfl

theorem items_of_letIn (h : i.letIn = some (ticket, i')) :
    i'.queue.items = i.queue.items ++ i.admitting.map (·.2) := by
  obtain ⟨a, -, hadmitting, hitems⟩ := admitting_of_letIn h
  rw [hitems, hadmitting]
  rfl

theorem admitting_of_letIn_eq_none (h : i.letIn = none) : i.admitting = [] := by
  rw [admitting, h]
  rfl

theorem take_one_items_of_take (h : i.take = (.item a, i')) :
    i.queue.items = i.queue.items.take 1 ++ i'.queue.items := by
  rw [items_of_take h]
  rfl

theorem items_of_take_disconnected (h : i.take = (.disconnected, i')) : i.queue.items = [] := by
  unfold take at h
  split at h
  · cases h
  · next hqueue =>
    unfold Mailbox.take at hqueue
    split at hqueue
    · cases hqueue
    · assumption
  · cases h

theorem take_one_of_disconnected (h : i.take = (.disconnected, i')) :
    i.queue.items.take 1 = [] := by
  rw [items_of_take_disconnected h]
  rfl

theorem take_one_items_of_disconnected (h : i.take = (.disconnected, i')) :
    i.queue.items = i.queue.items.take 1 ++ i.queue.items := by
  rw [take_one_of_disconnected h]
  rfl

theorem isListening_of_refused (h : i.bring ticket a = (.refused, j)) :
    i.queue.isListening = false := by
  unfold bring at h
  split at h
  · next hclosed => exact (Bool.not_eq_true' _).mp hclosed
  · split at h <;> cases h

theorem isListening_of_dismiss (h : i.dismiss = some (ticket, i')) :
    i.queue.isListening = false := by
  unfold dismiss at h
  split at h
  · cases h
  · split at h
    · cases h
    · next hclosed => exact Bool.eq_false_iff.mpr hclosed

/-- The same became of the senders and of the receiving ends of both. -/
structure SameEnds (i j : Intake α) : Prop where
  senders : j.queue.senders = i.queue.senders
  receiver : j.queue.receiver = i.queue.receiver

theorem SameEnds.symm (h : SameEnds i j) : SameEnds j i := ⟨h.senders.symm, h.receiver.symm⟩

theorem SameEnds.trans (h : SameEnds i i') (h' : SameEnds i' j) : SameEnds i j :=
  ⟨h'.senders.trans h.senders, h'.receiver.trans h.receiver⟩

theorem SameEnds.of_queue_eq (h : j.queue = i.queue) : SameEnds i j := by
  constructor <;> rw [h]

theorem SameEnds.isListening (h : SameEnds i j) : j.queue.isListening = i.queue.isListening := by
  rw [Mailbox.isListening, Mailbox.isListening, h.receiver]

theorem SameEnds.isOver (h : SameEnds i j) : j.queue.isOver = i.queue.isOver := by
  rw [Mailbox.isOver, Mailbox.isOver, Mailbox.isListening, Mailbox.isListening, h.receiver,
    h.senders]

theorem sameEnds_bring (ticket : Nat) (a : α) : SameEnds i (i.bring ticket a).2 := by
  unfold bring Mailbox.offer
  split
  · exact ⟨rfl, rfl⟩
  · split
    · dsimp only
      split
      · exact ⟨rfl, rfl⟩
      · exact ⟨rfl, rfl⟩
    · exact ⟨rfl, rfl⟩

theorem sameEnds_of_bring {entry : Entry} (h : i.bring ticket a = (entry, j)) :
    SameEnds i j := by
  have hends := sameEnds_bring (i := i) ticket a
  rwa [h] at hends

theorem sameEnds_letIn (h : i.letIn = some (ticket, j)) : SameEnds i j := by
  unfold letIn Mailbox.offer at h
  split at h
  · cases h
  · split at h
    · split at h
      · cases h
        exact ⟨rfl, rfl⟩
      · split at h <;> cases h <;> exact ⟨rfl, rfl⟩
    · cases h

theorem sameEnds_take (h : i.take = (t, j)) : SameEnds i j := by
  unfold take at h
  split at h
  · next queue hqueue =>
    cases h
    rw [(Mailbox.take_eq_item_iff.mp hqueue).2]
    exact ⟨rfl, rfl⟩
  · cases h
    exact ⟨rfl, rfl⟩
  · cases h
    exact ⟨rfl, rfl⟩

theorem isOver_of_take (h : i.take = (.disconnected, j)) : i.queue.isOver = true := by
  unfold take Mailbox.take at h
  cases hover : i.queue.isOver with
  | true => rfl
  | false =>
      rw [hover, if_neg Bool.false_ne_true] at h
      split at h
      · cases h
      · next hqueue => split at hqueue <;> cases hqueue
      · cases h

theorem take_of_isOver (hover : i.queue.isOver = true) (hitems : i.queue.items = [])
    (hline : i.line = []) : i.take = (.disconnected, i) := by
  simp only [take, Mailbox.take, hitems, hover, hline, if_true, List.isEmpty_nil]

/-- The items of one sender, in their order. -/
def itemsOf (ticket : Nat) (xs : List (Nat × α)) : List α :=
  (xs.filter (·.1 = ticket)).map (·.2)

theorem itemsOf_append (ticket : Nat) (xs ys : List (Nat × α)) :
    itemsOf ticket (xs ++ ys) = itemsOf ticket xs ++ itemsOf ticket ys := by
  rw [itemsOf, List.filter_append, List.map_append]
  rfl

theorem itemsOf_singleton (ticket t : Nat) (a : α) :
    itemsOf ticket [(t, a)] = if t = ticket then [a] else [] := by
  by_cases hticket : t = ticket
  · rw [itemsOf, List.filter_cons_of_pos (by simp [hticket]), if_pos hticket]
    rfl
  · rw [itemsOf, List.filter_cons_of_neg (by simp [hticket]), if_neg hticket]
    rfl

theorem line_of_take (h : i.take = (t, i')) : i'.line = i.line := by
  unfold take at h
  split at h <;> cases h <;> rfl

theorem exists_take_of_items {a : α} {rest : List α} (h : i.queue.items = a :: rest) :
    ∃ i', i.take = (.item a, i') ∧ i'.queue.items = rest := by
  refine ⟨{ i with queue := { i.queue with items := rest } }, ?_, rfl⟩
  simp only [take, Mailbox.take, h]

theorem itemsOf_bring (ticket t : Nat) (a : α) :
    (itemsOf ticket (i.accepting t a) ++ itemsOf ticket (i.bring t a).2.line).Sublist
      (itemsOf ticket i.line ++ if t = ticket then [a] else []) := by
  unfold accepting bring
  split
  · exact List.sublist_append_left _ _
  · split
    · next hroom =>
      have hline : i.line = [] := List.isEmpty_iff.mp (Bool.and_eq_true_iff.mp hroom).1
      rw [if_pos rfl, itemsOf_singleton, hline]
      exact (List.append_nil _).symm ▸ List.Sublist.refl _
    · rw [itemsOf_append, itemsOf_singleton]
      exact List.Sublist.refl _

theorem itemsOf_of_ne {t : Nat} (hne : t ≠ ticket) : itemsOf ticket [(t, a)] = [] := by
  rw [itemsOf_singleton, if_neg hne]

theorem itemsOf_bring_of_ne {t : Nat} (hne : t ≠ ticket) (a : α) :
    itemsOf ticket (i.bring t a).2.line = itemsOf ticket i.line := by
  unfold bring
  split
  · rfl
  · split
    · rfl
    · rw [itemsOf_append, itemsOf_of_ne hne, List.append_nil]

theorem itemsOf_leave_of_ne {t : Nat} (hne : t ≠ ticket) :
    itemsOf ticket (i.leave t).line = itemsOf ticket i.line := by
  unfold leave
  dsimp only
  induction i.line with
  | nil => rfl
  | cons x line ih =>
      obtain ⟨t', b⟩ := x
      by_cases ht : t' = t
      · subst ht
        rw [List.eraseP_cons_of_pos (by simp), ← List.singleton_append, itemsOf_append,
          itemsOf_of_ne hne, List.nil_append]
      · rw [List.eraseP_cons_of_neg (by simpa using ht), ← List.singleton_append, itemsOf_append,
          ih, ← itemsOf_append, List.singleton_append]

theorem itemsOf_leave : itemsOf ticket (i.leave ticket).line = (itemsOf ticket i.line).tail := by
  unfold leave
  dsimp only
  induction i.line with
  | nil => rfl
  | cons x line ih =>
      obtain ⟨t', b⟩ := x
      by_cases ht : t' = ticket
      · subst ht
        rw [List.eraseP_cons_of_pos (by simp), ← List.singleton_append, itemsOf_append,
          itemsOf_singleton, if_pos rfl]
        rfl
      · rw [List.eraseP_cons_of_neg (by simpa using ht), ← List.singleton_append, itemsOf_append,
          ← List.singleton_append (l := line), itemsOf_append, itemsOf_of_ne ht, List.nil_append,
          List.nil_append, ih]

theorem itemsOf_eq_nil_iff : itemsOf ticket i.line = [] ↔ i.isWaiting ticket = false := by
  rw [itemsOf, List.map_eq_nil_iff, List.filter_eq_nil_iff, isWaiting, List.any_eq_false]
  simp

end Intake

end HookRelay
