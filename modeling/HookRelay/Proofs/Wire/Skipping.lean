import HookRelay.Proofs.Wire.Reading

namespace HookRelay.Wire

open Reader

/-- What skipping a value of depth `n` answers where it may nest `d` deep. -/
def within (d n : Nat) : Except DecodeError Unit :=
  if n ≤ d then .ok () else .error .tooDeep

theorem within_max (d m n : Nat) :
    within d (max m n) = (do within d m; within d n) := by
  simp only [within, Nat.max_le]
  by_cases hm : m ≤ d
  · simp [hm, bind, Except.bind]
  · simp [hm, bind, Except.bind]

theorem within_succ (d n : Nat) : within (d + 1) (n + 1) = within d n := by
  simp [within]

theorem iterate_list {inner : Reader Unit} {d : Nat}
    (hinner : Reads inner fun v => within d v.depth) {vs : List Value} {body : List UInt8}
    (h : PackedList vs body) (rest : List UInt8) :
    iterate (fun _ => inner) vs.length () (body ++ rest) =
      (within d (Value.depthList vs)).map (·, rest) := by
  induction vs generalizing body with
  | nil =>
      cases h
      rfl
  | cons v vs ih =>
      cases h with
      | @cons _ _ bs bss hv hvs =>
          rw [List.append_assoc, Value.depthList, within_max]
          simp only [List.length_cons, iterate, bind_apply, hinner hv (bss ++ rest)]
          cases within d v.depth with
          | error e => rfl
          | ok _ => exact ih hvs

theorem exists_list_of_iterate {inner : Reader Unit} (hinner : TakesValue inner) {n : Nat}
    {bs rest : List UInt8} {u : Unit} (h : iterate (fun _ => inner) n () bs = .ok (u, rest)) :
    ∃ vs used, vs.length = n ∧ bs = used ++ rest ∧ PackedList vs used := by
  induction n generalizing bs with
  | zero =>
      cases h
      exact ⟨[], [], rfl, rfl, .nil⟩
  | succ n ih =>
      obtain ⟨_, bs₁, hfirst, hothers⟩ := bind_eq_ok_iff.mp h
      obtain ⟨v, used, rfl, hv⟩ := hinner hfirst
      obtain ⟨vs, body, hlen, rfl, hvs⟩ := ih hothers
      exact ⟨v :: vs, used ++ body, by simp [hlen], by simp, .cons hv hvs⟩

/-- Two values one after another, the first of them a key. -/
def twice (inner : Reader Unit) : Reader Unit := do
  inner
  inner

theorem twice_reads {inner : Reader Unit} {d : Nat}
    (hinner : Reads inner fun v => within d v.depth) :
    ReadsEntry (twice inner) fun e => within d (max e.1.depth e.2.depth) := by
  intro k v bs bs' hk hv rest
  simp only [twice, bind_apply, hinner hk, within_max]
  cases within d k.depth with
  | error e => rfl
  | ok _ => exact hinner hv rest

theorem twice_takesEntry {inner : Reader Unit} (hinner : TakesValue inner) :
    TakesEntry (twice inner) := by
  intro bs u rest h
  obtain ⟨_, bs₁, hkey, hvalue⟩ := bind_eq_ok_iff.mp h
  obtain ⟨k, used, rfl, hk⟩ := hinner hkey
  obtain ⟨v, used', rfl, hv⟩ := hinner hvalue
  exact ⟨k, v, used, used', rfl, hk, hv⟩

theorem foldlM_within (d : Nat) (es : List (Value × Value)) :
    es.foldlM (fun _ e => within d (max e.1.depth e.2.depth)) () =
      within d (Value.depthEntries es) := by
  induction es with
  | nil => rfl
  | cons e es ih =>
      let shallow := within d (max e.1.depth e.2.depth)
      rw [List.foldlM_cons, Value.depthEntries, within_max d (max e.1.depth e.2.depth)]
      exact congrArg (shallow >>= ·) (funext fun _ => ih)

/-- One level of skipping, in which containers are refused or hold values that the
next level skips. -/
theorem skipOne_reads {nested : Option (Reader Unit)} {d : Nat}
    (h : match nested with
      | none => d = 0
      | some inner => ∃ d', d = d' + 1 ∧ Reads inner fun v => within d' v.depth) :
    Reads (skipOne nested) fun v => within d v.depth := by
  intro v bs hv rest
  obtain ⟨mk, tail, hmk, ho⟩ := hv.exists_opened rest
  refine (bind_of_ok hmk).trans ?_
  cases ho with
  | nil | bool | negative => simp [Value.depth, within, Except.map]
  | unsigned h => exact (bind_of_ok h).trans (by simp [Value.depth, within, Except.map])
  | signed bs | float bs =>
      exact (bind_of_ok (take_eq_ok_iff.mpr ⟨rfl, rfl⟩)).trans
        (by simp [Value.depth, within, Except.map])
  | str h | bin h => exact (bind_of_ok h).trans (by simp [Value.depth, within, Except.map])
  | array hlen hvs =>
      refine (bind_of_ok hlen).trans ?_
      cases nested with
      | none =>
          subst h
          rfl
      | some inner =>
          obtain ⟨d, rfl, hinner⟩ := h
          simp only [Value.depth, within_succ]
          exact iterate_list hinner hvs rest
  | map hlen hes =>
      refine (bind_of_ok hlen).trans ?_
      cases nested with
      | none =>
          subst h
          rfl
      | some inner =>
          obtain ⟨d, rfl, hinner⟩ := h
          simp only [Value.depth, within_succ, ← foldlM_within]
          exact iterate_entries (fun _ => twice_reads hinner) hes () rest
  | @ext tag bs tail len hlen =>
      refine (bind_of_ok hlen).trans ?_
      cases nested with
      | none =>
          subst h
          rfl
      | some inner =>
          obtain ⟨d, rfl, -⟩ := h
          have htake : take (bs.length + 1) (tag :: bs ++ rest) = .ok (tag :: bs, rest) :=
            take_eq_ok_iff.mpr ⟨rfl, rfl⟩
          exact (bind_of_ok htake).trans (by simp [Value.depth, within, Except.map])

theorem skip_reads (d : Nat) : Reads (skip d) fun v => within d v.depth := by
  induction d with
  | zero => exact skipOne_reads rfl
  | succ d ih => exact skipOne_reads ⟨d, rfl, ih⟩

theorem skipOne_takesValue {nested : Option (Reader Unit)}
    (h : ∀ inner ∈ nested, TakesValue inner) : TakesValue (skipOne nested) := by
  intro bs u rest hskip
  obtain ⟨mk, tail, hmk, hskip⟩ := bind_eq_ok_iff.mp hskip
  cases mk with
  | nil =>
      cases hskip
      exact ⟨_, Opened.exists_packed .nil hmk⟩
  | bool b =>
      cases hskip
      exact ⟨_, Opened.exists_packed (.bool b) hmk⟩
  | negative i =>
      cases hskip
      exact ⟨_, Opened.exists_packed (.negative i) hmk⟩
  | unsigned value =>
      obtain ⟨n, tail', hn, hskip⟩ := bind_eq_ok_iff.mp hskip
      cases hskip
      exact ⟨_, Opened.exists_packed (.unsigned hn) hmk⟩
  | signed width =>
      obtain ⟨number, tail', htake, hskip⟩ := bind_eq_ok_iff.mp hskip
      cases hskip
      obtain ⟨rfl, rfl⟩ := take_eq_ok_iff.mp htake
      exact ⟨_, Opened.exists_packed (.signed number) hmk⟩
  | float width =>
      obtain ⟨number, tail', htake, hskip⟩ := bind_eq_ok_iff.mp hskip
      cases hskip
      obtain ⟨rfl, rfl⟩ := take_eq_ok_iff.mp htake
      exact ⟨_, Opened.exists_packed (.float number) hmk⟩
  | str len =>
      obtain ⟨text, tail', hlen, hskip⟩ := bind_eq_ok_iff.mp hskip
      cases hskip
      exact ⟨_, Opened.exists_packed (.str hlen) hmk⟩
  | bin len =>
      obtain ⟨text, tail', hlen, hskip⟩ := bind_eq_ok_iff.mp hskip
      cases hskip
      exact ⟨_, Opened.exists_packed (.bin hlen) hmk⟩
  | array len =>
      obtain ⟨n, tail', hlen, hskip⟩ := bind_eq_ok_iff.mp hskip
      cases nested with
      | none => cases hskip
      | some inner =>
          obtain ⟨vs, body, rfl, rfl, hvs⟩ := exists_list_of_iterate (h inner rfl) hskip
          exact ⟨_, Opened.exists_packed (.array hlen hvs) hmk⟩
  | map len =>
      obtain ⟨n, tail', hlen, hskip⟩ := bind_eq_ok_iff.mp hskip
      cases nested with
      | none => cases hskip
      | some inner =>
          obtain ⟨es, body, rfl, rfl, hes⟩ :=
            exists_entries_of_iterate (fun _ => twice_takesEntry (h inner rfl)) hskip
          exact ⟨_, Opened.exists_packed (.map hlen hes) hmk⟩
  | ext len =>
      obtain ⟨n, tail', hlen, hskip⟩ := bind_eq_ok_iff.mp hskip
      cases nested with
      | none => cases hskip
      | some inner =>
          obtain ⟨bytes, tail'', htake, hskip⟩ := bind_eq_ok_iff.mp hskip
          cases hskip
          obtain ⟨rfl, hbytes⟩ := take_eq_ok_iff.mp htake
          obtain ⟨tag, bs, rfl⟩ := List.exists_cons_of_length_eq_add_one hbytes
          obtain rfl : bs.length = n := by simpa using hbytes
          exact ⟨_, Opened.exists_packed (.ext hlen) hmk⟩
  | reserved => cases hskip

theorem skip_takesValue (d : Nat) : TakesValue (skip d) := by
  induction d with
  | zero => exact skipOne_takesValue (by simp)
  | succ d ih => exact skipOne_takesValue (by simpa using ih)

end HookRelay.Wire
