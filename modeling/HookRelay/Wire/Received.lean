import HookRelay.Wire.Frame

namespace HookRelay.Wire

theorem length_of_scan_frame {maxLen : Nat} {bs payload rest : List UInt8}
    (h : scan maxLen bs = .frame payload rest) :
    bs.length = payload.length + 2 + rest.length := by
  match bs with
  | [] => simp [scan] at h
  | [_] => simp [scan] at h
  | hi :: lo :: bs =>
    simp only [scan] at h
    split at h
    · cases h
    · split at h
      · cases h
        simp only [List.length_cons, List.length_take, List.length_drop]
        omega
      · cases h

/-- The messages of the whole frames at the front of the bytes, and how many bytes
these frames take. -/
def received (bs : List UInt8) : List Message × Nat :=
  match _h : scan maxPayload bs with
  | .frame payload rest =>
    let (ms, n) := received rest
    ((decode payload).toOption.toList ++ ms, payload.length + 2 + n)
  | _ => ([], 0)
termination_by bs.length
decreasing_by
  have := length_of_scan_frame (by assumption)
  omega

end HookRelay.Wire
