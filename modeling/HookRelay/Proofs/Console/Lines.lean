import HookRelay.Console
import HookRelay.Proofs.Text

namespace HookRelay.Console

/-- How a byte string falls into lines. The last one may lack its line feed, unless it is
empty. -/
inductive SplitsInto : List UInt8 → List (List UInt8) → Prop
  | nothing : SplitsInto [] []
  | last {l : List UInt8} : l ≠ [] → 10 ∉ l → SplitsInto l [l]
  | line {l bs : List UInt8} {ls : List (List UInt8)} :
      10 ∉ l → SplitsInto bs ls → SplitsInto (l ++ 10 :: bs) (l :: ls)

/-- What a line asks for: nothing if it is blank, and else a command or an event. -/
inductive AsksFor (line : String) : List Ask → Prop
  | nothing : Text.Trims line "" → AsksFor line []
  | command {rest : String} : Text.Trims line ("/" ++ rest) → AsksFor line [.command ⟨rest⟩]
  | event {body : String} :
      Text.Trims line body → body ≠ "" → body.toList.head? ≠ some '/' →
      AsksFor line [.event (.chat body)]

/-- What the body of a chat event is like that comes from a console. -/
structure IsBody (body : String) : Prop where
  ne_empty : body ≠ ""
  head : ∀ c ∈ body.toList.head?, Text.isBlank c = false ∧ c ≠ '/'
  last : ∀ c ∈ body.toList.getLast?, Text.isBlank c = false

/-- What lines ask for, each by itself. -/
def asksOf (texts : List String) : List Ask := texts.flatMap fun line => (ask? line).toList

variable {bs xs l : List UInt8} {ls : List (List UInt8)} {line : String} {as : List Ask}

section Lines

theorem lines_append (hxs : 10 ∉ xs) (bs : List UInt8) :
    lines (xs ++ bs) = xs.foldr consByte (lines bs) := by
  induction xs with
  | nil => rfl
  | cons x xs ih =>
      rw [List.mem_cons, not_or] at hxs
      rw [List.cons_append, List.foldr_cons, ← ih hxs.2]
      exact if_neg (Ne.symm hxs.1)

theorem foldr_consByte_cons (xs l : List UInt8) (ls : List (List UInt8)) :
    xs.foldr consByte (l :: ls) = (xs ++ l) :: ls := by
  induction xs with
  | nil => rfl
  | cons x xs ih =>
      rw [List.foldr_cons, ih]
      rfl

theorem foldr_consByte_nil (hxs : xs ≠ []) : xs.foldr consByte [] = [xs] := by
  rw [← List.dropLast_append_getLast hxs, List.foldr_append]
  exact foldr_consByte_cons _ _ _

theorem lines_line (hl : 10 ∉ l) (bs : List UInt8) : lines (l ++ 10 :: bs) = l :: lines bs := by
  have hbs : lines (10 :: bs) = [] :: lines bs := rfl
  rw [lines_append hl, hbs, foldr_consByte_cons, List.append_nil]

theorem lines_last (hl : 10 ∉ l) (hne : l ≠ []) : lines l = [l] := by
  have hlines := lines_append hl []
  rw [List.append_nil] at hlines
  rw [hlines]
  exact foldr_consByte_nil hne

theorem SplitsInto.consByte {b : UInt8} (hb : b ≠ 10) (h : SplitsInto bs ls) :
    SplitsInto (b :: bs) (consByte b ls) := by
  have hmem : ∀ {l : List UInt8}, 10 ∉ l → 10 ∉ b :: l := fun hl =>
    List.not_mem_cons_of_ne_of_not_mem hb.symm hl
  cases h with
  | nothing => exact .last (List.cons_ne_nil _ _) (hmem List.not_mem_nil)
  | last _ hl => exact .last (List.cons_ne_nil _ _) (hmem hl)
  | line hl h => exact .line (hmem hl) h

theorem splitsInto_lines (bs : List UInt8) : SplitsInto bs (lines bs) := by
  induction bs with
  | nil => exact .nothing
  | cons b bs ih =>
      by_cases hb : b = 10
      · subst hb
        exact .line List.not_mem_nil ih
      · have hlines : lines (b :: bs) = Console.consByte b (lines bs) := if_neg hb
        rw [hlines]
        exact ih.consByte hb

theorem SplitsInto.eq_lines (h : SplitsInto bs ls) : lines bs = ls := by
  induction h with
  | nothing => rfl
  | last hne hl => exact lines_last hl hne
  | line hl _ ih => rw [lines_line hl, ih]

theorem lines_eq_iff : lines bs = ls ↔ SplitsInto bs ls :=
  ⟨fun h => h ▸ splitsInto_lines bs, SplitsInto.eq_lines⟩

/-- A line feed between two byte strings ends the last line of the first, or else it is a blank
line. -/
theorem exists_lines_join (xs bs : List UInt8) :
    ∃ blank, (blank = [] ∨ blank = [[]]) ∧
      lines (xs ++ 10 :: bs) = lines xs ++ blank ++ lines bs := by
  have hsplit := splitsInto_lines xs
  generalize lines xs = ls at hsplit ⊢
  induction hsplit with
  | nothing => exact ⟨[[]], .inr rfl, lines_line List.not_mem_nil bs⟩
  | last _ hl => exact ⟨[], .inl rfl, lines_line hl bs⟩
  | @line l xs ls hl _ ih =>
      obtain ⟨blank, hblank, hlines⟩ := ih
      refine ⟨blank, hblank, ?_⟩
      rw [List.append_assoc, List.cons_append, lines_line hl, hlines]
      rfl

theorem exists_lines_bytes (s : String) :
    ∃ texts : List String, lines (Text.bytes s) = texts.map Text.bytes := by
  rw [← String.ofList_toList (s := s)]
  induction s.toList with
  | nil => exact ⟨[], rfl⟩
  | cons c cs ih =>
      obtain ⟨texts, hlines⟩ := ih
      rw [String.ofList_cons, Text.bytes_append, Text.bytes_singleton]
      by_cases hc : c = '\n'
      · subst hc
        refine ⟨"" :: texts, ?_⟩
        have hfeed : String.utf8EncodeChar '\n' = [10] := by decide
        rw [hfeed, List.singleton_append, ← List.nil_append (10 :: _),
          lines_line List.not_mem_nil, hlines]
        rfl
      · rw [lines_append fun hmem => hc (Text.eq_of_lineFeed_mem hmem), hlines]
        cases texts with
        | nil =>
            refine ⟨[String.singleton c], ?_⟩
            rw [List.map_nil, foldr_consByte_nil, List.map_singleton, Text.bytes_singleton]
            exact List.ne_nil_of_length_pos (String.length_utf8EncodeChar c ▸ c.utf8Size_pos)
        | cons t texts =>
            refine ⟨(String.singleton c ++ t) :: texts, ?_⟩
            rw [List.map_cons, foldr_consByte_cons, List.map_cons, Text.bytes_append,
              Text.bytes_singleton]

end Lines

section Asks

theorem ask?_of_command {rest : String} (h : Text.Trims line ("/" ++ rest)) :
    ask? line = some (.command ⟨rest⟩) := by
  have hslash : ("/" ++ rest).toList = '/' :: rest.toList := by simp
  unfold ask?
  dsimp only
  rw [h.eq_trim, hslash]
  simp

theorem ask?_of_event {body : String} (h : Text.Trims line body) (hne : body ≠ "")
    (hslash : body.toList.head? ≠ some '/') : ask? line = some (.event (.chat body)) := by
  unfold ask?
  dsimp only
  rw [h.eq_trim]
  split
  · next hnil => exact absurd (String.toList_eq_nil_iff.mp hnil) hne
  · next hcons =>
    rw [hcons] at hslash
    exact absurd rfl hslash
  · rfl

theorem ask?_of_blank (h : Text.Trims line "") : ask? line = none := by
  unfold ask?
  rw [h.eq_trim]
  rfl

theorem asksFor_ask? (line : String) : AsksFor line (ask? line).toList := by
  have htrims := Text.trims_trim line
  by_cases hempty : Text.trim line = ""
  · rw [hempty] at htrims
    rw [ask?_of_blank htrims]
    exact .nothing htrims
  · by_cases hslash : (Text.trim line).toList.head? = some '/'
    · obtain ⟨rest, hrest⟩ := List.head?_eq_some_iff.mp hslash
      have htrim : Text.trim line = "/" ++ String.ofList rest := by
        apply String.toList_inj.mp
        rw [hrest]
        simp
      rw [htrim] at htrims
      rw [ask?_of_command htrims]
      exact .command htrims
    · rw [ask?_of_event htrims hempty hslash]
      exact .event htrims hempty hslash

theorem forall₂_asksFor (texts : List String) :
    List.Forall₂ AsksFor texts (texts.map fun line => (ask? line).toList) := by
  induction texts with
  | nil => exact .nil
  | cons line texts ih => exact .cons (asksFor_ask? line) ih

theorem AsksFor.isBody {e : Event} (h : AsksFor line as) (he : .event e ∈ as) :
    ∃ body, e = .chat body ∧ IsBody body := by
  cases h with
  | nothing => cases he
  | command => cases List.mem_singleton.mp he
  | @event body h hne hslash =>
      cases List.mem_singleton.mp he
      refine ⟨body, rfl, hne, fun c hc => ⟨h.head c hc, ?_⟩, h.last⟩
      rintro rfl
      exact hslash hc

theorem isBody_of_mem_asksOf {texts : List String} {e : Event} (he : .event e ∈ asksOf texts) :
    ∃ body, e = .chat body ∧ IsBody body := by
  obtain ⟨line, -, he⟩ := List.mem_flatMap.mp he
  exact (asksFor_ask? line).isBody he

end Asks

namespace Input

theorem ofLines_append (texts : List String) (ls : List (List UInt8)) :
    ofLines (texts.map Text.bytes ++ ls) =
      ⟨asksOf texts ++ (ofLines ls).asks, (ofLines ls).isText⟩ := by
  induction texts with
  | nil => rfl
  | cons line texts ih =>
      rw [List.map_cons, List.cons_append, ofLines, Text.ofBytes?_bytes, ih, asksOf, asksOf,
        List.flatMap_cons, List.append_assoc]

theorem ofLines_of_not_text {rest : List (List UInt8)} (hne : rest ≠ [])
    (hrest : ∀ l ∈ rest.head?, Text.ofBytes? l = none) : ofLines rest = ⟨[], false⟩ := by
  cases rest with
  | nil => exact absurd rfl hne
  | cons l rest => rw [ofLines, hrest l rfl]

theorem exists_texts (ls : List (List UInt8)) :
    ∃ (texts : List String) (rest : List (List UInt8)),
      ls = texts.map Text.bytes ++ rest ∧ ∀ l ∈ rest.head?, Text.ofBytes? l = none := by
  induction ls with
  | nil => exact ⟨[], [], rfl, nofun⟩
  | cons l ls ih =>
      cases htext : Text.ofBytes? l with
      | none =>
          refine ⟨[], l :: ls, rfl, fun l' hl' => ?_⟩
          cases hl'
          exact htext
      | some line =>
          obtain ⟨texts, rest, rfl, hrest⟩ := ih
          refine ⟨line :: texts, rest, ?_, hrest⟩
          rw [Text.ofBytes?_eq_some_iff.mp htext]
          rfl

/-- What a byte string asks for is what its lines ask for, up to the first that is no text. -/
theorem exists_ofBytes (bs : List UInt8) :
    ∃ (texts : List String) (rest : List (List UInt8)),
      SplitsInto bs (texts.map Text.bytes ++ rest) ∧
      (∀ l ∈ rest.head?, Text.ofBytes? l = none) ∧ (ofBytes bs).asks = asksOf texts ∧
      ((ofBytes bs).isText = true ↔ rest = []) := by
  obtain ⟨texts, rest, hlines, hrest⟩ := exists_texts (lines bs)
  refine ⟨texts, rest, lines_eq_iff.mp hlines, hrest, ?_⟩
  rw [ofBytes, hlines, ofLines_append]
  by_cases hnil : rest = []
  · subst hnil
    exact ⟨List.append_nil _, iff_of_true rfl rfl⟩
  · rw [ofLines_of_not_text hnil hrest]
    exact ⟨List.append_nil _, iff_of_false Bool.false_ne_true hnil⟩

theorem ofBytes_bytes {s : String} {texts : List String}
    (hlines : lines (Text.bytes s) = texts.map Text.bytes) :
    ofBytes (Text.bytes s) = ⟨asksOf texts, true⟩ := by
  rw [ofBytes, hlines, ← List.append_nil (texts.map _), ofLines_append, ofLines, List.append_nil]

theorem isText_bytes (s : String) : (ofBytes (Text.bytes s)).isText = true := by
  obtain ⟨texts, htexts⟩ := exists_lines_bytes s
  rw [ofBytes_bytes htexts]

theorem ofBytes_join (a : String) (bs : List UInt8) :
    ofBytes (Text.bytes a ++ 10 :: bs) =
      ⟨(ofBytes (Text.bytes a)).asks ++ (ofBytes bs).asks, (ofBytes bs).isText⟩ := by
  obtain ⟨texts, htexts⟩ := exists_lines_bytes a
  obtain ⟨blank, hblank, hlines⟩ := exists_lines_join (Text.bytes a) bs
  have hskips : ofLines (blank ++ lines bs) = ofLines (lines bs) := by
    rcases hblank with rfl | rfl
    · rfl
    · exact ofLines_append [""] (lines bs)
  rw [ofBytes_bytes htexts, ofBytes, hlines, htexts, List.append_assoc, ofLines_append, hskips]
  rfl

end Input

end HookRelay.Console
