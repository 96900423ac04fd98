import HookRelay.Wire.Received

namespace HookRelay.Wire

/-- The messages at the front of a byte stream, up to the first frame that is too long, or is
no message, or is not whole, and how many bytes belong to them. A frame that is no message,
and a length that is too long, belong to them too. -/
def cut (maxLen : Nat) : List UInt8 → List Message × Nat
  | hi :: lo :: bs =>
    let len := hi.toNat * 256 + lo.toNat
    if maxLen < len then ([], 2)
    else if bs.length < len then ([], 0)
    else
      match decode (bs.take len) with
      | .error _ => ([], len + 2)
      | .ok m =>
        let (ms, n) := cut maxLen (bs.drop len)
        (m :: ms, len + 2 + n)
  | _ => ([], 0)
termination_by bs => bs.length
decreasing_by
  rw [List.length_drop, List.length_cons, List.length_cons]
  omega

variable {maxLen len : Nat} {bs payload rest heard : List UInt8} {ms : List Message} {m : Message}

theorem cut_oversized {hi lo : UInt8} (hlong : maxLen < hi.toNat * 256 + lo.toNat) :
    cut maxLen (hi :: lo :: bs) = ([], 2) := by
  rw [cut]
  exact if_pos hlong

theorem cut_short {hi lo : UInt8} (hmax : hi.toNat * 256 + lo.toNat ≤ maxLen)
    (hshort : bs.length < hi.toNat * 256 + lo.toNat) : cut maxLen (hi :: lo :: bs) = ([], 0) := by
  rw [cut]
  simp only
  rw [if_neg (Nat.not_lt.mpr hmax), if_pos hshort]

theorem cut_undecodable {hi lo : UInt8} {e : DecodeError}
    (hlen : hi.toNat * 256 + lo.toNat = payload.length) (hmax : payload.length ≤ maxLen)
    (hdecode : decode payload = .error e) :
    cut maxLen (hi :: lo :: (payload ++ rest)) = ([], payload.length + 2) := by
  rw [cut]
  simp only [hlen]
  rw [if_neg (Nat.not_lt.mpr hmax), if_neg, List.take_left, hdecode]
  rw [List.length_append]
  omega

theorem cut_frame {hi lo : UInt8} (hlen : hi.toNat * 256 + lo.toNat = payload.length)
    (hmax : payload.length ≤ maxLen) (hdecode : decode payload = .ok m) :
    cut maxLen (hi :: lo :: (payload ++ rest)) =
      (m :: (cut maxLen rest).1, payload.length + 2 + (cut maxLen rest).2) := by
  rw [cut]
  simp only [hlen]
  rw [if_neg (Nat.not_lt.mpr hmax), if_neg, List.take_left, hdecode, List.drop_left]
  rw [List.length_append]
  omega

/-- Bytes that come later only add to what there is. -/
theorem cut_append (more : List UInt8) :
    (cut maxLen bs).1 <+: (cut maxLen (bs ++ more)).1 ∧
      (cut maxLen bs).2 ≤ (cut maxLen (bs ++ more)).2 := by
  fun_induction cut maxLen bs with
  | case1 hi lo bs len hlong =>
      rw [List.cons_append, List.cons_append, cut_oversized hlong]
      exact ⟨List.nil_prefix, Nat.le_refl _⟩
  | case2 hi lo bs len hlong hshort => exact ⟨List.nil_prefix, Nat.zero_le _⟩
  | case3 hi lo bs len hlong hshort e hdecode =>
      have hlen : len = (bs.take len).length := by
        rw [List.length_take]
        omega
      have hmax : (bs.take len).length ≤ maxLen := hlen ▸ Nat.not_lt.mp hlong
      rw [List.cons_append, List.cons_append, ← List.take_append_drop len bs, List.append_assoc,
        cut_undecodable hlen hmax hdecode, ← hlen]
      exact ⟨List.prefix_rfl, Nat.le_refl _⟩
  | case4 hi lo bs len hlong hshort m hdecode ms n hcut ih =>
      have hlen : len = (bs.take len).length := by
        rw [List.length_take]
        omega
      have hmax : (bs.take len).length ≤ maxLen := hlen ▸ Nat.not_lt.mp hlong
      rw [hcut] at ih
      rw [List.cons_append, List.cons_append, ← List.take_append_drop len bs, List.append_assoc,
        cut_frame hlen hmax hdecode, ← hlen]
      exact ⟨List.cons_prefix_cons.mpr ⟨rfl, ih.1⟩, Nat.add_le_add_left ih.2 _⟩
  | case5 => exact ⟨List.nil_prefix, Nat.zero_le _⟩

/-- Bytes that are the whole frames of some messages, whatever comes behind them. -/
def Heard (maxLen : Nat) (heard : List UInt8) (ms : List Message) : Prop :=
  ∀ more, cut maxLen (heard ++ more) =
    (ms ++ (cut maxLen more).1, heard.length + (cut maxLen more).2)

/-- Bytes behind which nothing that comes counts any more. -/
def IsSpoilt (maxLen : Nat) (bs : List UInt8) : Prop :=
  ∀ more, cut maxLen (bs ++ more) = cut maxLen bs

theorem heard_nil : Heard maxLen [] [] := by
  intro more
  rw [List.nil_append, List.nil_append, List.length_nil, Nat.zero_add]

theorem Heard.append {next : List UInt8} {ms' : List Message} (h : Heard maxLen heard ms)
    (h' : Heard maxLen next ms') : Heard maxLen (heard ++ next) (ms ++ ms') := by
  intro more
  rw [List.append_assoc, h, h', List.append_assoc, List.length_append, Nat.add_assoc]

theorem IsSpoilt.behind (h : Heard maxLen heard ms) (hspoilt : IsSpoilt maxLen bs) :
    IsSpoilt maxLen (heard ++ bs) := by
  intro more
  rw [List.append_assoc, h, h, hspoilt]

theorem beValue_pair (hi lo : UInt8) : beValue [hi, lo] = hi.toNat * 256 + lo.toNat := by
  simp [beValue]

theorem exists_of_scan_frame (h : scan maxLen bs = .frame payload rest) :
    ∃ hi lo, bs = hi :: lo :: (payload ++ rest) ∧
      hi.toNat * 256 + lo.toNat = payload.length ∧ payload.length ≤ maxLen := by
  match bs with
  | [] => simp [scan] at h
  | [_] => simp [scan] at h
  | hi :: lo :: bs =>
    simp only [scan, beValue_pair] at h
    split at h
    · cases h
    · next hmax =>
      split at h
      · next hlen =>
        cases h
        refine ⟨hi, lo, by rw [List.take_append_drop], hlen.symm, ?_⟩
        rw [hlen]
        exact Nat.not_lt.mp hmax
      · cases h

theorem heard_of_scan (h : scan maxLen bs = .frame payload rest)
    (hdecode : decode payload = .ok m) :
    Heard maxLen (bs.take (payload.length + 2)) [m] := by
  obtain ⟨hi, lo, rfl, hlen, hmax⟩ := exists_of_scan_frame h
  intro more
  rw [List.take_succ_cons, List.take_succ_cons, List.take_left, List.cons_append,
    List.cons_append, cut_frame hlen hmax hdecode]
  rfl

theorem cut_of_scan_undecodable {e : DecodeError} (h : scan maxLen bs = .frame payload rest)
    (hdecode : decode payload = .error e) :
    cut maxLen bs = ([], payload.length + 2) ∧ IsSpoilt maxLen bs := by
  obtain ⟨hi, lo, rfl, hlen, hmax⟩ := exists_of_scan_frame h
  refine ⟨cut_undecodable hlen hmax hdecode, fun more => ?_⟩
  rw [List.cons_append, List.cons_append, List.append_assoc,
    cut_undecodable hlen hmax hdecode, cut_undecodable hlen hmax hdecode]

theorem cut_of_scan_oversized (h : scan maxLen bs = .oversized len rest) :
    cut maxLen bs = ([], 2) ∧ IsSpoilt maxLen bs := by
  match bs with
  | [] => simp [scan] at h
  | [_] => simp [scan] at h
  | hi :: lo :: bs =>
    simp only [scan, beValue_pair] at h
    split at h
    · next hlong =>
      refine ⟨cut_oversized hlong, fun more => ?_⟩
      rw [List.cons_append, List.cons_append, cut_oversized hlong, cut_oversized hlong]
    · split at h <;> cases h

theorem cut_of_scan_incomplete {e : StreamError} (h : scan maxLen bs = .incomplete e) :
    cut maxLen bs = ([], 0) := by
  match bs with
  | [] | [_] => rw [cut]; nofun
  | hi :: lo :: bs =>
    simp only [scan, beValue_pair] at h
    split at h
    · cases h
    · next hmax =>
      split at h
      · cases h
      · next hshort =>
        refine cut_short (Nat.not_lt.mp hmax) ?_
        rw [List.length_take] at hshort
        omega

end HookRelay.Wire
