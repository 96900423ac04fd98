import HookRelay.Proofs.Settings.Layers

namespace HookRelay.Settings

namespace Datum

def isPositive : Datum → Bool
  | text _ => true
  | count n => 1 ≤ n
  | time t => t ≠ .zero

/-- Whether two bytes can hold the length, and there is one. -/
def isFrameLength : Datum → Bool
  | count n => 1 ≤ n ∧ n ≤ 65535
  | _ => true

end Datum

/-- A demand on a setting. -/
structure Demand where
  field : Field
  name : String
  wording : String
  allows : Datum → Bool

def Demand.complaint (d : Demand) : String := d.name ++ " must be " ++ d.wording

def demands : List Demand :=
  [⟨.clientQueue, "queues.client", "at least 1", Datum.isPositive⟩,
    ⟨.inboxQueue, "queues.inbox", "at least 1", Datum.isPositive⟩,
    ⟨.controlQueue, "queues.control", "at least 1", Datum.isPositive⟩,
    ⟨.outboxQueue, "queues.outbox", "at least 1", Datum.isPositive⟩,
    ⟨.registrationQueue, "queues.registrations", "at least 1", Datum.isPositive⟩,
    ⟨.heartbeatInterval, "heartbeat.interval", "non-zero", Datum.isPositive⟩,
    ⟨.heartbeatTimeout, "heartbeat.timeout", "non-zero", Datum.isPositive⟩,
    ⟨.chatWriteTimeout, "chat.write_timeout", "non-zero", Datum.isPositive⟩,
    ⟨.maxFrameLen, "protocol.max_frame_len", "between 1 and 65535", Datum.isFrameLength⟩]

/-- The outcome of a run that comes to these values: settings with them if all demands are met,
or else the complaint about the first one that is not. -/
structure Verdict (merged : Field → Datum) (outcome : Except LoadError Settings) : Prop where
  ok : ∀ c : Settings, outcome = .ok c ↔
    (∀ field, c.value field = merged field) ∧ ∀ d ∈ demands, d.allows (merged d.field)
  error : ∀ e, outcome = .error e ↔ ∃ before d after, demands = before ++ d :: after ∧
    (∀ d' ∈ before, d'.allows (merged d'.field)) ∧ d.allows (merged d.field) = false ∧
      e = .settings (.invalid d.complaint)

variable {read : ReadFile} {args : List String} {as : List (Options.Key × String)}
  {top : Toml.Entries} {o : Options} {merged : Field → Datum}

section Validity

variable (c : Settings)

/-- Whether settings do not meet a demand. -/
def violates (d : Demand) : Bool := !d.allows (c.value d.field)

theorem not_isPositive_count (n : Nat) : (!(Datum.count n).isPositive) = decide (n = 0) := by
  cases n <;> rfl

theorem not_isPositive_time (t : Duration) :
    (!(Datum.time t).isPositive) = decide (t = .zero) := by
  simp [Datum.isPositive]

theorem not_isFrameLength_count (n : Nat) : (!(Datum.count n).isFrameLength) =
    decide (n = 0 ∨ n > Wire.maxPayload) := by
  rw [Datum.isFrameLength, ← decide_not, decide_eq_decide, Wire.maxPayload]
  omega

theorem text_emptyQueue (name : String) :
    (Violation.emptyQueue name).text = name ++ " must be " ++ "at least 1" := by
  rw [String.append_assoc]
  rfl

theorem text_zeroTime (name : String) :
    (Violation.zeroTime name).text = name ++ " must be " ++ "non-zero" := by
  rw [String.append_assoc]
  rfl

theorem text_frameLength : Violation.frameLength.text =
    "protocol.max_frame_len" ++ " must be " ++ "between 1 and 65535" := by
  decide

theorem map_demands : demands.map (fun d => (c.violates d, d.complaint)) =
    c.queues.map (fun q => (decide (q.2 = 0), (Violation.emptyQueue q.1).text)) ++
      c.times.map (fun t => (decide (t.2 = .zero), (Violation.zeroTime t.1).text)) ++
        [(decide (c.maxFrameLen = 0 ∨ c.maxFrameLen > Wire.maxPayload),
          Violation.frameLength.text)] := by
  simp only [demands, queues, times, List.map_cons, List.map_nil, List.cons_append, List.nil_append,
    violates, value, not_isPositive_count, not_isPositive_time, not_isFrameLength_count,
    Demand.complaint, text_emptyQueue, text_zeroTime, text_frameLength]

theorem map_text_violations :
    c.violations.map Violation.text = (demands.filter c.violates).map Demand.complaint := by
  have hdemands : (demands.filter c.violates).map Demand.complaint =
      ((demands.map fun d => (c.violates d, d.complaint)).filter (·.1)).map (·.2) := by
    rw [List.filter_map, List.map_map]
    rfl
  rw [hdemands, map_demands, violations]
  -- the two sides are now lists of three parts, of which only the last is not a filter
  simp only [List.filter_append, List.map_append, List.filter_map, List.map_map]
  refine congrArg₂ _ rfl ?_
  by_cases hlen : c.maxFrameLen = 0 ∨ c.maxFrameLen > Wire.maxPayload
  · rw [if_pos hlen, decide_eq_true hlen]
    rfl
  · rw [if_neg hlen, decide_eq_false hlen]
    rfl

/-- Settings are valid if they meet all demands; the first one that they do not meet is reported. -/
theorem mapError_validate :
    (c.validate.mapError fun v => LoadError.settings (.invalid v.text)) =
      (demands.find? c.violates).elim (.ok c) fun d =>
        .error (.settings (.invalid d.complaint)) := by
  have hfirst : c.violations.head?.map Violation.text =
      (demands.find? c.violates).map Demand.complaint := by
    rw [← List.head?_map, map_text_violations, List.head?_map, List.head?_filter]
  unfold validate
  cases hviolations : c.violations with
  | nil =>
      rw [hviolations] at hfirst
      rw [Option.map_eq_none_iff.mp hfirst.symm]
      rfl
  | cons v vs =>
      rw [hviolations] at hfirst
      obtain ⟨d, hd, htext⟩ := Option.map_eq_some_iff.mp hfirst.symm
      rw [hd, Option.elim_some, htext]
      rfl

end Validity

theorem find?_violates_eq_some_iff {c : Settings} {d : Demand} :
    demands.find? c.violates = some d ↔ ∃ before after, demands = before ++ d :: after ∧
      (∀ d' ∈ before, d'.allows (c.value d'.field)) ∧ d.allows (c.value d.field) = false := by
  rw [List.find?_eq_some_iff_append]
  simp only [violates, Bool.not_eq_true', Bool.not_not]
  constructor
  · rintro ⟨hd, before, after, hsplit, hbefore⟩
    exact ⟨before, after, hsplit, hbefore, hd⟩
  · rintro ⟨before, after, hsplit, hbefore, hd⟩
    exact ⟨hd, before, after, hsplit, hbefore⟩

theorem verdict_of_validate {c : Settings} :
    Verdict c.value (c.validate.mapError fun v => .settings (.invalid v.text)) := by
  rw [mapError_validate]
  cases hfind : demands.find? c.violates with
  | none =>
      have hall : ∀ d ∈ demands, d.allows (c.value d.field) := by
        intro d hd
        have hd := List.find?_eq_none.mp hfind d hd
        simpa [violates] using hd
      constructor
      · intro c'
        constructor
        · rintro ⟨⟩
          exact ⟨fun _ => rfl, hall⟩
        · rintro ⟨hvalue, -⟩
          exact congrArg Except.ok (eq_of_value hvalue).symm
      · intro e
        constructor
        · rintro ⟨⟩
        · rintro ⟨before, d, after, hsplit, hbefore, hd, -⟩
          rw [find?_violates_eq_some_iff.mpr ⟨before, after, hsplit, hbefore, hd⟩] at hfind
          cases hfind
  | some d =>
      obtain ⟨before, after, hsplit, hbefore, hd⟩ := find?_violates_eq_some_iff.mp hfind
      constructor
      · intro c'
        constructor
        · rintro ⟨⟩
        · rintro ⟨-, hall⟩
          have hmem : d ∈ demands := by
            rw [hsplit]
            exact List.mem_append_right before List.mem_cons_self
          rw [hall d hmem] at hd
          cases hd
      · intro e
        constructor
        · rintro ⟨⟩
          exact ⟨before, d, after, hsplit, hbefore, hd, rfl⟩
        · rintro ⟨before', d', after', hsplit', hbefore', hd', rfl⟩
          rw [find?_violates_eq_some_iff.mpr ⟨before', after', hsplit', hbefore', hd'⟩] at hfind
          cases hfind
          rfl

theorem Verdict.unique {outcome outcome' : Except LoadError Settings} (h : Verdict merged outcome)
    (h' : Verdict merged outcome') : outcome = outcome' := by
  cases outcome with
  | ok c => exact ((h'.ok c).mpr ((h.ok c).mp rfl)).symm
  | error e => exact ((h'.error e).mpr ((h.error e).mp rfl)).symm

theorem verdict_of_finds (hparse : Options.parse args = .ok o) (hreads : Options.Reads args as)
    (hfinds : Finds read (as.lookup .config) (.ok top)) :
    Verdict (·.merged as top) (load read args) := by
  obtain ⟨c, hvalue, hload⟩ := load_of_ok hparse hreads hfinds
  rw [hload, ← show c.value = (·.merged as top) from funext hvalue]
  exact verdict_of_validate

/-- A file that cannot be had is reported first. With any other, the outcome is decided by the
merged values, whichever sources they come from. -/
theorem load_verdict (hparse : Options.parse args = .ok o) :
    (∃ as found, Options.Reads args as ∧ Finds read (as.lookup .config) found) ∧
      ∀ as, Options.Reads args as →
        (∀ e, Finds read (as.lookup .config) (.error e) →
          load read args = .error (.settings e)) ∧
        ∀ top, Finds read (as.lookup .config) (.ok top) →
          Verdict (·.merged as top) (load read args) ∧
            ∀ (read' : ReadFile) args' o' as' top', Options.parse args' = .ok o' →
              Options.Reads args' as' → Finds read' (as'.lookup .config) (.ok top') →
              (∀ field : Field, field.merged as' top' = field.merged as top) →
                load read' args' = load read args := by
  constructor
  · obtain ⟨as, hreads⟩ := Options.exists_reads hparse
    obtain ⟨found, hfinds⟩ := exists_finds read (as.lookup .config)
    exact ⟨as, found, hreads, hfinds⟩
  intro as hreads
  constructor
  · intro e hfinds
    exact load_of_error hparse hreads hfinds
  intro top hfinds
  have hverdict := verdict_of_finds hparse hreads hfinds
  refine ⟨hverdict, ?_⟩
  intro read' args' o' as' top' hparse' hreads' hfinds' hmerged
  have heq : (fun field : Field => field.merged as' top') = (·.merged as top) := funext hmerged
  have hverdict' := verdict_of_finds hparse' hreads' hfinds'
  rw [heq] at hverdict'
  exact hverdict'.unique hverdict

theorem load_verdict_overridden :
    let file (text : String) : ReadFile := fun _ => .ok (Text.bytes text)
    (∃ c, load (file "heartbeat.interval_secs = 0") ["-cf", "--heartbeat-interval=4"] = .ok c) ∧
      load (file "heartbeat.interval_secs = 4") ["-cf", "--heartbeat-interval=0"] =
        .error (.settings (.invalid "heartbeat.interval must be non-zero")) := by
  intro file
  have hreads (v : String) : Options.Reads ["-cf", "--heartbeat-interval=" ++ v]
      [(.config, "f"), (.heartbeatInterval, v)] :=
    .joined (.attached (c := 'c') rfl (by decide) (by decide)) (.joined (.assigned .long) .nil)
  have hfile (text : String) (s : Settings)
      (h : (FileSettings.parse? text).map (·.toSettings) = some s) :
      ∃ top, Finds (file text) (some "f") (.ok top) ∧
        ∀ (field : Field) as,
          field.merged as top = (field.counted? as).getD (s.value field) := by
    obtain ⟨f, hparse, rfl⟩ := Option.map_eq_some_iff.mp h
    obtain ⟨top, htoml, hdocument⟩ := Option.bind_eq_some_iff.mp hparse
    exact ⟨top, .document rfl htoml (FileSettings.fits_of_ofDocument? hdocument),
      fun field _ => merged_of_ofDocument? hdocument field⟩
  constructor
  · have hparse : Options.parse ["-cf", "--heartbeat-interval=4"] =
        .ok { config := some "f", heartbeatInterval := some 4 } := by
      decide +kernel
    obtain ⟨top, hfinds, hmerged⟩ :=
      hfile "heartbeat.interval_secs = 0" { default with heartbeatInterval := .zero }
        (by decide +kernel)
    obtain ⟨hverdict, -⟩ := ((load_verdict hparse).2 _ (hreads "4")).2 _ hfinds
    simp only [hmerged] at hverdict
    refine ⟨{ default with heartbeatInterval := .ofSecs 4 },
      (hverdict.ok _).mpr ⟨?_, by decide⟩⟩
    intro field
    cases field <;> rfl
  · have hparse : Options.parse ["-cf", "--heartbeat-interval=0"] =
        .ok { config := some "f", heartbeatInterval := some 0 } := by
      decide +kernel
    obtain ⟨top, hfinds, hmerged⟩ :=
      hfile "heartbeat.interval_secs = 4" { default with heartbeatInterval := .ofSecs 4 }
        (by decide +kernel)
    obtain ⟨hverdict, -⟩ := ((load_verdict hparse).2 _ (hreads "0")).2 _ hfinds
    simp only [hmerged] at hverdict
    exact (hverdict.error _).mpr ⟨demands.take 5, _, demands.drop 6, rfl, by decide, by decide,
      rfl⟩

end HookRelay.Settings
