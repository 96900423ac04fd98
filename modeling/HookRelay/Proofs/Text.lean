import Mathlib.Data.List.Basic
import Mathlib.Data.List.TakeWhile
import HookRelay.Text.Blank
import HookRelay.Text.Utf8

namespace HookRelay.Text

/-- What is cut off at both ends of a text is blank, and what is left neither starts nor ends
with a blank. -/
structure Trims (s body : String) : Prop where
  cut : ∃ before after : String, s = before ++ body ++ after ∧
    (∀ c ∈ before.toList, isBlank c = true) ∧ ∀ c ∈ after.toList, isBlank c = true
  head : ∀ c ∈ body.toList.head?, isBlank c = false
  last : ∀ c ∈ body.toList.getLast?, isBlank c = false

section Trim

variable {cs before body after : List Char} {s t : String}

theorem dropWhile_isBlank_append (hbefore : ∀ c ∈ before, isBlank c = true)
    (hbody : ∀ c ∈ body.head?, isBlank c = false) :
    (before ++ body).dropWhile isBlank = body := by
  rw [List.dropWhile_append_of_pos hbefore]
  cases body with
  | nil => rfl
  | cons c body => exact List.dropWhile_cons_of_neg (Bool.eq_false_iff.mp (hbody c rfl))

theorem isBlank_head?_dropWhile (cs : List Char) :
    ∀ c ∈ (cs.dropWhile isBlank).head?, isBlank c = false := by
  intro c hc
  have hhead := List.head?_dropWhile_not isBlank cs
  rwa [Option.mem_def.mp hc] at hhead

/-- Trimming cuts blanks off, and leaves none at the ends. -/
theorem exists_cut_trimChars (cs : List Char) :
    ∃ before after, cs = before ++ trimChars cs ++ after ∧
      (∀ c ∈ before, isBlank c = true) ∧
      ∀ c ∈ after, isBlank c = true := by
  refine ⟨cs.takeWhile isBlank, ((cs.dropWhile isBlank).reverse.takeWhile isBlank).reverse, ?_,
    fun c hc => List.mem_takeWhile_imp hc,
    fun c hc => List.mem_takeWhile_imp (List.mem_reverse.mp hc)⟩
  rw [trimChars, List.append_assoc, ← List.reverse_append, List.takeWhile_append_dropWhile,
    List.reverse_reverse, List.takeWhile_append_dropWhile]

theorem isBlank_getLast?_trimChars (cs : List Char) :
    ∀ c ∈ (trimChars cs).getLast?, isBlank c = false := by
  rw [trimChars, List.getLast?_reverse]
  exact isBlank_head?_dropWhile _

theorem isBlank_head?_trimChars (cs : List Char) :
    ∀ c ∈ (trimChars cs).head?, isBlank c = false := by
  intro c hc
  have hsplit : cs.dropWhile isBlank =
      trimChars cs ++ ((cs.dropWhile isBlank).reverse.takeWhile isBlank).reverse := by
    rw [trimChars, ← List.reverse_append, List.takeWhile_append_dropWhile, List.reverse_reverse]
  refine isBlank_head?_dropWhile cs c ?_
  rw [hsplit, List.head?_append_of_ne_nil _ (List.ne_nil_of_mem (List.mem_of_mem_head? hc))]
  exact hc

/-- Whoever cuts blanks off until there are none at the ends has trimmed. -/
theorem trimChars_cut (hbefore : ∀ c ∈ before, isBlank c = true)
    (hafter : ∀ c ∈ after, isBlank c = true) (hhead : ∀ c ∈ body.head?, isBlank c = false)
    (hlast : ∀ c ∈ body.getLast?, isBlank c = false) :
    trimChars (before ++ body ++ after) = body := by
  by_cases hbody : body = []
  · subst hbody
    have hall : ∀ c ∈ before ++ [] ++ after, isBlank c = true := by
      intro c hc
      rw [List.append_nil] at hc
      exact (List.mem_append.mp hc).elim (hbefore c) (hafter c)
    rw [trimChars, List.dropWhile_eq_nil_iff.mpr hall]
    rfl
  · have hfront : (before ++ (body ++ after)).dropWhile isBlank = body ++ after := by
      refine dropWhile_isBlank_append hbefore ?_
      rwa [List.head?_append_of_ne_nil _ hbody]
    have hback : (after.reverse ++ body.reverse).dropWhile isBlank = body.reverse := by
      refine dropWhile_isBlank_append (fun c hc => hafter c (List.mem_reverse.mp hc)) ?_
      rwa [List.head?_reverse]
    rw [trimChars, List.append_assoc, hfront, List.reverse_append, hback, List.reverse_reverse]

theorem trims_trim (s : String) : Trims s (trim s) := by
  obtain ⟨before, after, hcut, hbefore, hafter⟩ := exists_cut_trimChars s.toList
  refine ⟨⟨.ofList before, .ofList after, ?_, ?_, ?_⟩, ?_, ?_⟩
  · apply String.toList_inj.mp
    simpa [trim] using hcut
  · simpa using hbefore
  · simpa using hafter
  · rw [trim, String.toList_ofList]
    exact isBlank_head?_trimChars _
  · rw [trim, String.toList_ofList]
    exact isBlank_getLast?_trimChars _

theorem Trims.eq_trim (h : Trims s t) : trim s = t := by
  obtain ⟨before, after, rfl, hbefore, hafter⟩ := h.cut
  rw [trim, String.toList_append, String.toList_append,
    trimChars_cut hbefore hafter h.head h.last, String.ofList_toList]

end Trim

section Bytes

@[simp] theorem bytes_append (s t : String) : bytes (s ++ t) = bytes s ++ bytes t := by
  rw [bytes, String.toByteArray_append, ByteArray.data_append, Array.toList_append]
  rfl

theorem bytes_singleton (c : Char) : bytes (String.singleton c) = String.utf8EncodeChar c := by
  rw [bytes, String.toByteArray_singleton, List.utf8Encode_singleton, List.data_toByteArray]

theorem lineFeed_not_mem_map (ns : List Nat) (hns : ∀ n ∈ ns, 128 ≤ n ∧ n < 256) :
    10 ∉ ns.map UInt8.ofNat := by
  intro hmem
  obtain ⟨n, hn, heq⟩ := List.mem_map.mp hmem
  obtain ⟨hle, hlt⟩ := hns n hn
  have hten : n = 10 := by rw [← UInt8.toNat_ofNat_of_lt' hlt, heq]; rfl
  omega

theorem eq_of_lineFeed_mem {c : Char} (h : 10 ∈ String.utf8EncodeChar c) : c = '\n' := by
  unfold String.utf8EncodeChar at h
  dsimp only at h
  split at h
  · next hascii =>
    have hten := congrArg UInt8.toNat (List.mem_singleton.mp h)
    rw [UInt8.toNat_ofNat_of_lt' (Nat.lt_of_le_of_lt hascii (by decide))] at hten
    exact Char.ext (UInt32.toNat_inj.mp hten.symm)
  · exfalso
    split at h
    · exact lineFeed_not_mem_map [_, _] (by simp; omega) h
    · split at h
      · exact lineFeed_not_mem_map [_, _, _] (by simp; omega) h
      · exact lineFeed_not_mem_map [_, _, _, _] (by simp; omega) h

end Bytes

end HookRelay.Text
