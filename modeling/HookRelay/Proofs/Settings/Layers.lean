import HookRelay.Proofs.Options
import HookRelay.Proofs.Settings.Fields
import HookRelay.Settings.Load
/-!
Where the value of a setting comes from: the command line, or else the file, or else the
default. The one exception is a log level on the command line that is the default one.
-/

namespace HookRelay

open Settings (Field Datum Kind Fits)

namespace Settings

/-- The value of this kind that a word on the command line stands for. -/
def Kind.ofWord? : Kind → String → Option Datum
  | text, v => some (.text v)
  | count, v => (Options.number? v).map .count
  | seconds, v => (Options.number? v).map (.time <| .ofSecs ·)

/-- What is found where a file may be named: the entries of its document, none if there is no
file, or the reason why they cannot be had. -/
inductive Finds (read : ReadFile) : Option String → Except SettingsError Toml.Entries → Prop
  | nothing : Finds read none (.ok [])
  | unreadable {path : String} {e : StreamError} (h : read path = .error e) :
      Finds read (some path) (.error (.unreadable path e))
  | notText {path : String} {bs : List UInt8} (h : read path = .ok bs)
      (hbs : ∀ text, bs ≠ Text.bytes text) :
      Finds read (some path) (.error (.unreadable path .notText))
  | malformed {path text : String} (h : read path = .ok (Text.bytes text))
      (hparse : Toml.parse? text = none) : Finds read (some path) (.error (.unparsable path))
  | unfit {path text : String} {top : Toml.Entries} (h : read path = .ok (Text.bytes text))
      (hparse : Toml.parse? text = some top) (hfits : ¬ Fits top) :
      Finds read (some path) (.error (.unparsable path))
  | document {path text : String} {top : Toml.Entries} (h : read path = .ok (Text.bytes text))
      (hparse : Toml.parse? text = some top) (hfits : Fits top) : Finds read (some path) (.ok top)

end Settings

namespace Options

namespace Key

def kind : Key → Kind
  | config | listen | room | logLevel => .text
  | heartbeatInterval | heartbeatTimeout => .seconds

/-- The value that an option has been set to. -/
def held? (o : Options) : Key → Option Datum
  | config => o.config.map .text
  | listen => o.listen.map .text
  | room => o.room.map .text
  | heartbeatInterval => o.heartbeatInterval.map (.time <| .ofSecs ·)
  | heartbeatTimeout => o.heartbeatTimeout.map (.time <| .ofSecs ·)
  | logLevel => o.logLevel.map .text

end Key

variable {o o' : Options} {k : Key} {v : String} {args : List String} {as : List (Key × String)}

theorem held?_of_set (h : o.set k v = .ok o') : k.held? o = none ∧
    (∃ d, k.kind.ofWord? v = some d ∧ k.held? o' = some d) ∧
      ∀ k', k' ≠ k → k'.held? o' = k'.held? o := by
  cases k with
  | config =>
      simp only [set] at h
      split_ifs at h with hsome hempty
      cases h
      rw [Option.not_isSome_iff_eq_none] at hsome
      refine ⟨congrArg (Option.map Datum.text) hsome, ⟨.text v, rfl, rfl⟩, ?_⟩
      rintro (_ | _) hk' <;> first | rfl | exact absurd rfl hk'
  | listen | room | logLevel =>
      simp only [set] at h
      split_ifs at h with hsome
      cases h
      rw [Option.not_isSome_iff_eq_none] at hsome
      refine ⟨congrArg (Option.map Datum.text) hsome, ⟨.text v, rfl, rfl⟩, ?_⟩
      rintro (_ | _) hk' <;> first | rfl | exact absurd rfl hk'
  | heartbeatInterval | heartbeatTimeout =>
      simp only [set] at h
      split_ifs at h with hsome
      rw [Option.not_isSome_iff_eq_none] at hsome
      let seconds (n : Nat) : Datum := .time (.ofSecs n)
      split at h
      · next n hnumber =>
          cases h
          refine ⟨congrArg (Option.map seconds) hsome,
            ⟨seconds n, congrArg (Option.map seconds) hnumber, rfl⟩, ?_⟩
          rintro (_ | _) hk' <;> first | rfl | exact absurd rfl hk'
      · cases h

theorem held?_of_assignments (h : as.foldlM assign o = .ok o') (k : Key) :
    k.held? o' = (k.held? o).or ((as.lookup k).bind k.kind.ofWord?) := by
  -- an option is set at most once, so the first assignment that is found is the only one
  induction as generalizing o with
  | nil =>
      cases h
      exact (Option.or_none).symm
  | cons a as ih =>
      rw [List.foldlM_cons] at h
      obtain ⟨o₁, hset, hrest⟩ := exists_of_bind_eq_ok h
      obtain ⟨hnone, ⟨d, hword, hsome⟩, hothers⟩ := held?_of_set hset
      obtain ⟨k', v⟩ := a
      rw [ih hrest]
      by_cases hk : k = k'
      · subst hk
        rw [hsome, hnone, List.lookup_cons_self, Option.bind_some, hword]
        rfl
      · rw [hothers k hk, List.lookup_cons, beq_false_of_ne hk]

theorem lookup_of_mem (hnodup : (as.map (·.1)).Nodup) (h : (k, v) ∈ as) :
    as.lookup k = some v := by
  obtain ⟨before, after, rfl⟩ := List.append_of_mem h
  rw [List.map_append, List.map_cons, List.nodup_append] at hnodup
  refine List.lookup_eq_some_iff.mpr ⟨before, after, rfl, fun a ha => bne_iff_ne.mpr ?_⟩
  exact (hnodup.2.2 a.1 (List.mem_map_of_mem ha) k List.mem_cons_self).symm

theorem held?_of_reads (hreads : Reads args as) (hparse : parse args = .ok o) (k : Key) :
    k.held? o = (as.lookup k).bind k.kind.ofWord? := by
  rw [parse_of_reads hreads] at hparse
  rw [held?_of_assignments hparse k]
  cases k <;> exact Option.none_or

theorem config_of_reads (hreads : Reads args as) (hparse : parse args = .ok o) :
    o.config = as.lookup .config := by
  have hconfig := held?_of_reads hreads hparse .config
  change o.config.map Datum.text = (as.lookup .config).bind (some ∘ Datum.text) at hconfig
  rw [← Option.map_eq_bind] at hconfig
  exact Option.map_injective (fun _ _ => Datum.text.inj) hconfig

theorem nodup_of_assignments (h : as.foldlM assign o = .ok o') :
    (as.map (·.1)).Nodup ∧ ∀ a ∈ as, a.1.held? o = none ∧
      (a.1.kind.ofWord? a.2).isSome := by
  induction as generalizing o with
  | nil => exact ⟨List.nodup_nil, nofun⟩
  | cons a as ih =>
      rw [List.foldlM_cons] at h
      obtain ⟨o₁, hset, hrest⟩ := exists_of_bind_eq_ok h
      obtain ⟨hnone, ⟨d, hword, hsome⟩, hothers⟩ := held?_of_set hset
      obtain ⟨hnodup, has⟩ := ih hrest
      have hne (b : Key × String) (hb : b ∈ as) : b.1 ≠ a.1 := by
        intro heq
        have hheld := (has b hb).1
        rw [heq, hsome] at hheld
        cases hheld
      refine ⟨List.nodup_cons.mpr ⟨?_, hnodup⟩, ?_⟩
      · rw [List.mem_map]
        rintro ⟨b, hb, heq⟩
        exact hne b hb heq
      · rintro b hb
        rcases List.mem_cons.mp hb with rfl | hb
        · exact ⟨hnone, Option.isSome_of_mem hword⟩
        · exact ⟨(hothers b.1 (hne b hb)).symm.trans (has b hb).1, (has b hb).2⟩

end Options

namespace Settings

variable {read : ReadFile} {args : List String} {as : List (Options.Key × String)}
  {config : Option String} {top : Toml.Entries} {s : Settings} {o : Options}

namespace Field

/-- The option that a setting can be given with. -/
def key? : Field → Option Options.Key
  | listen => some .listen
  | chatRoom => some .room
  | heartbeatInterval => some .heartbeatInterval
  | heartbeatTimeout => some .heartbeatTimeout
  | logLevel => some .logLevel
  | _ => none

/-- The value that the assignments of a command line give a setting. -/
def given? (field : Field) (as : List (Options.Key × String)) : Option Datum :=
  field.key?.bind fun k => (as.lookup k).bind k.kind.ofWord?

/-- The value that the assignments give a setting and that counts. -/
def counted? (field : Field) (as : List (Options.Key × String)) : Option Datum :=
  (field.given? as).filter fun d => field ≠ .logLevel ∨ d ≠ .text Options.defaultLogLevel

/-- The value of a setting out of all its sources. -/
def merged (field : Field) (as : List (Options.Key × String)) (top : Toml.Entries) : Datum :=
  ((field.counted? as).or (field.set? top)).getD (default.value field)

end Field

section File

theorem exists_finds (read : ReadFile) (config : Option String) :
    ∃ found, Finds read config found := by
  cases config with
  | none => exact ⟨_, .nothing⟩
  | some path =>
      cases hread : read path with
      | error e => exact ⟨_, .unreadable hread⟩
      | ok bs =>
          by_cases hbs : ∃ text, bs = Text.bytes text
          · obtain ⟨text, rfl⟩ := hbs
            cases hparse : Toml.parse? text with
            | none => exact ⟨_, .malformed hread hparse⟩
            | some top =>
                by_cases hfits : Fits top
                · exact ⟨_, .document hread hparse hfits⟩
                · exact ⟨_, .unfit hread hparse hfits⟩
          · exact ⟨_, .notText hread (not_exists.mp hbs)⟩

theorem ofFile_of_text {path text : String} (h : read path = .ok (Text.bytes text)) :
    ofFile read (some path) =
      (FileSettings.parse? text).elim (.error (.unparsable path)) (.ok ·.toSettings) := by
  simp only [ofFile, h, Text.ofBytes?_bytes]
  cases FileSettings.parse? text <;> rfl

theorem ofFile_of_error {e : SettingsError} (h : Finds read config (.error e)) :
    ofFile read config = .error e := by
  cases h with
  | unreadable h => rw [ofFile, h]
  | @notText path bs h hbs =>
      have hnone : Text.ofBytes? bs = none := by
        rw [Option.eq_none_iff_forall_ne_some]
        exact fun text htext => hbs text (Text.ofBytes?_eq_some_iff.mp htext)
      rw [ofFile, h]
      simp only [hnone]
  | malformed h hparse =>
      rw [ofFile_of_text h, FileSettings.parse?, hparse, Option.bind_none, Option.elim_none]
  | @unfit path text top h hparse hfits =>
      have hnone : FileSettings.ofDocument? top = none := by
        rw [Option.eq_none_iff_forall_ne_some]
        exact fun f hf => hfits (FileSettings.fits_of_ofDocument? hf)
      rw [ofFile_of_text h, FileSettings.parse?, hparse, Option.bind_some, hnone,
        Option.elim_none]

theorem ofFile_of_ok (h : Finds read config (.ok top)) : ∃ s, ofFile read config = .ok s ∧
    ∀ field : Field, s.value field = (field.set? top).getD (default.value field) := by
  cases h with
  | nothing =>
      refine ⟨default, rfl, fun field => ?_⟩
      cases field <;> rfl
  | document h hparse hfits =>
      obtain ⟨f, hf⟩ := FileSettings.exists_ofDocument? hfits
      refine ⟨f.toSettings, ?_, FileSettings.value_of_ofDocument? hf⟩
      rw [ofFile_of_text h, FileSettings.parse?, hparse, Option.bind_some, hf, Option.elim_some]

end File

section Merging

theorem value_override (field : Field) : (s.override o).value field =
    ((field.key?.bind (·.held? o)).filter fun d =>
      field ≠ .logLevel ∨ d ≠ .text Options.defaultLogLevel).getD (s.value field) := by
  obtain ⟨config, listen, room, interval, timeout, level⟩ := o
  cases field with
  | listen => cases listen <;> rfl
  | chatRoom => cases room <;> rfl
  | heartbeatInterval => cases interval <;> rfl
  | heartbeatTimeout => cases timeout <;> rfl
  | logLevel =>
      simp only [value, override, Field.key?, Options.Key.held?, Option.bind_some, ne_eq,
        not_true_eq_false, false_or]
      cases level with
      | none => simp
      | some v => by_cases hv : v = Options.defaultLogLevel <;> simp [Option.filter_some, hv]
  | _ => rfl

theorem merged_of_ofDocument? {f : FileSettings} (h : FileSettings.ofDocument? top = some f)
    (field : Field) :
    field.merged as top = (field.counted? as).getD (f.toSettings.value field) := by
  rw [Field.merged, Option.getD_or, FileSettings.value_of_ofDocument? h]

theorem load_eq (hparse : Options.parse args = .ok o) :
    load read args = (ofOptions read o).mapError .settings := by
  rw [load, hparse]

theorem load_of_error {e : SettingsError} (hparse : Options.parse args = .ok o)
    (hreads : Options.Reads args as) (hfinds : Finds read (as.lookup .config) (.error e)) :
    load read args = .error (.settings e) := by
  rw [load_eq hparse, ofOptions, Options.config_of_reads hreads hparse, ofFile_of_error hfinds]
  rfl

/-- What is loaded with a file that can be had are the settings with the merged values, if they
are valid. -/
theorem load_of_ok (hparse : Options.parse args = .ok o) (hreads : Options.Reads args as)
    (hfinds : Finds read (as.lookup .config) (.ok top)) :
    ∃ c : Settings, (∀ field : Field, c.value field = field.merged as top) ∧
      load read args = c.validate.mapError fun v => .settings (.invalid v.text) := by
  obtain ⟨s, hs, hvalue⟩ := ofFile_of_ok hfinds
  refine ⟨s.override o, fun field => ?_, ?_⟩
  · have hgiven : field.key?.bind (·.held? o) = field.given? as :=
      congrArg field.key?.bind (funext (Options.held?_of_reads hreads hparse))
    rw [value_override, hgiven, hvalue, Field.merged, Field.counted?, Option.getD_or]
  · rw [load_eq hparse, ofOptions, Options.config_of_reads hreads hparse, hs]
    dsimp only [bind, Except.bind]
    cases (s.override o).validate <;> rfl

end Merging

section Precedence

theorem given?_of_mem {field : Field} {k : Options.Key} {v : String} {d : Datum}
    (hnodup : (as.map (·.1)).Nodup) (hkey : field.key? = some k) (hmem : (k, v) ∈ as)
    (hword : k.kind.ofWord? v = some d) : field.given? as = some d := by
  rw [Field.given?, hkey, Option.bind_some, Options.lookup_of_mem hnodup hmem, Option.bind_some,
    hword]

theorem merged_of_counts {field : Field}
    (h : field = .logLevel → field.given? as ≠ some (.text Options.defaultLogLevel)) :
    field.merged as top = ((field.given? as).or (field.set? top)).getD (default.value field) := by
  have hcounts : field.counted? as = field.given? as := by
    unfold Field.counted?
    cases hgiven : field.given? as with
    | none => rfl
    | some d =>
        apply Option.filter_some_pos
        by_cases hfield : field = .logLevel
        · refine decide_eq_true (.inr fun heq => h hfield ?_)
          rw [hgiven, heq]
        · exact decide_eq_true (.inl hfield)
  rw [Field.merged, hcounts]

theorem merged_of_passed_over
    (h : Field.logLevel.given? as = some (.text Options.defaultLogLevel)) :
    Field.logLevel.merged as top = (Field.logLevel.set? top).getD (default.value .logLevel) := by
  have hnone : Field.logLevel.counted? as = none := by
    rw [Field.counted?, h]
    exact Option.filter_some_neg (by simp)
  rw [Field.merged, hnone, Option.none_or]

/-- Each setting has the value that the command line gives it, or else the value that the file
sets it to, or else the default. Only the default log level on the command line is passed
over. -/
theorem load_layered (h : load read args = .ok s) :
    (∃ as top, Options.Reads args as ∧ Finds read (as.lookup .config) (.ok top)) ∧
      ∀ as top, Options.Reads args as → Finds read (as.lookup .config) (.ok top) →
        (as.map (·.1)).Nodup ∧
        (∀ (field : Field) k v, field.key? = some k → (k, v) ∈ as →
          ∃ d, k.kind.ofWord? v = some d ∧ field.given? as = some d) ∧
        (∀ field : Field,
          (field = .logLevel → field.given? as ≠ some (.text Options.defaultLogLevel)) →
          s.value field = ((field.given? as).or (field.set? top)).getD (default.value field)) ∧
        (Field.logLevel.given? as = some (.text Options.defaultLogLevel) →
          s.value .logLevel = (Field.logLevel.set? top).getD (default.value .logLevel)) := by
  obtain ⟨o, hparse⟩ : ∃ o, Options.parse args = .ok o := by
    cases hparse : Options.parse args with
    | error e =>
        rw [load, hparse] at h
        cases h
    | ok o => exact ⟨o, rfl⟩
  constructor
  · obtain ⟨as, hreads⟩ := Options.exists_reads hparse
    obtain ⟨found, hfinds⟩ := exists_finds read (as.lookup .config)
    cases found with
    | error e =>
        rw [load_of_error hparse hreads hfinds] at h
        cases h
    | ok top => exact ⟨as, top, hreads, hfinds⟩
  · intro as top hreads hfinds
    have hassign := hparse
    rw [Options.parse_of_reads hreads] at hassign
    obtain ⟨hnodup, has⟩ := Options.nodup_of_assignments hassign
    obtain ⟨c, hvalue, hload⟩ := load_of_ok hparse hreads hfinds
    have hs : s = c := by
      rw [hload] at h
      cases hvalid : c.validate with
      | error v =>
          rw [hvalid] at h
          cases h
      | ok c' =>
          rw [hvalid] at h
          cases h
          exact (validate_eq_ok_iff.mp hvalid).2
    subst hs
    refine ⟨hnodup, ?_, ?_, ?_⟩
    · intro field k v hkey hmem
      obtain ⟨d, hword⟩ := Option.isSome_iff_exists.mp (has (k, v) hmem).2
      exact ⟨d, hword, given?_of_mem hnodup hkey hmem hword⟩
    · intro field hcounts
      rw [hvalue, merged_of_counts hcounts]
    · intro hlevel
      rw [hvalue, merged_of_passed_over hlevel]

theorem load_layered_three_sources :
    let read : ReadFile := fun _ => .ok (Text.bytes
      "[heartbeat]\ninterval_secs = 3\n[logging]\nlevel = \"debug\"\n")
    let args := ["-cc.toml", "--heartbeat-interval", "7", "--log-level=info"]
    ∃ s, load read args = .ok s ∧
      s.value .heartbeatInterval = .time (.ofSecs 7) ∧ s.value .logLevel = .text "debug" ∧
      s.value .heartbeatTimeout = .time (.ofSecs 10) := by
  intro read args
  have hfile : (Toml.parse?
      "[heartbeat]\ninterval_secs = 3\n[logging]\nlevel = \"debug\"\n").any (fun top =>
        (FileSettings.ofDocument? top).isSome ∧
          Field.logLevel.set? top = some (.text "debug") ∧
          Field.heartbeatTimeout.set? top = none) = true := by
    decide +kernel
  obtain ⟨top, htoml, hfile⟩ := (Option.any_eq_true _ _).mp hfile
  obtain ⟨hdocument, hfileLevel, hfileTimeout⟩ := of_decide_eq_true hfile
  obtain ⟨f, hdocument⟩ := Option.isSome_iff_exists.mp hdocument
  have hreads : Options.Reads args
      [(.config, "c.toml"), (.heartbeatInterval, "7"), (.logLevel, "info")] :=
    .joined (.attached (c := 'c') rfl (by decide) (by decide))
      (.apart .long (.inr (by decide)) (.joined (.assigned .long) .nil))
  have hfinds : Finds read (some "c.toml") (.ok top) :=
    .document rfl htoml (FileSettings.fits_of_ofDocument? hdocument)
  have hload : load read args =
      .ok { default with heartbeatInterval := .ofSecs 7, logLevel := "debug" } := by
    decide +kernel
  obtain ⟨-, -, hvalue, hlevel⟩ := (load_layered hload).2 _ _ hreads hfinds
  refine ⟨_, hload, hvalue .heartbeatInterval fun h => absurd h (by decide), ?_, ?_⟩
  · rw [hlevel rfl, hfileLevel]
    rfl
  · rw [hvalue .heartbeatTimeout fun h => absurd h (by decide), hfileTimeout]
    rfl

/-- The command line does not always come first: asked for the default log level, a run keeps
the level of its file. -/
theorem command_line_not_always_first : ¬ ∀ (read : ReadFile) args s as top,
    load read args = .ok s → Options.Reads args as →
      Finds read (as.lookup .config) (.ok top) →
      ∀ field : Field,
        s.value field = ((field.given? as).or (field.set? top)).getD (default.value field) := by
  intro hfirst
  let read : ReadFile := fun _ => .ok (Text.bytes "[logging]\nlevel = \"debug\"\n")
  have hfile : (Toml.parse? "[logging]\nlevel = \"debug\"\n").any
      (fun top => (FileSettings.ofDocument? top).isSome) = true := by
    decide +kernel
  obtain ⟨top, htoml, hdocument⟩ := (Option.any_eq_true _ _).mp hfile
  obtain ⟨f, hdocument⟩ := Option.isSome_iff_exists.mp hdocument
  have hreads : Options.Reads ["-c", "c.toml", "--log-level", "info"]
      [(.config, "c.toml"), (.logLevel, "info")] :=
    .apart (.short rfl) (.inr (by decide)) (.apart .long (.inr (by decide)) .nil)
  have hfinds : Finds read (some "c.toml") (.ok top) :=
    .document rfl htoml (FileSettings.fits_of_ofDocument? hdocument)
  have hload : load read ["-c", "c.toml", "--log-level", "info"] =
      .ok { default with logLevel := "debug" } := by
    decide +kernel
  have hlevel : Datum.text "debug" = .text "info" := hfirst _ _ _ _ _ hload hreads hfinds .logLevel
  exact absurd hlevel (by decide)

end Precedence

end Settings

end HookRelay
