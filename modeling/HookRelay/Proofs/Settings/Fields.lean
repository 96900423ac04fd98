import HookRelay.Settings.File

namespace HookRelay.Settings

/-- The value of a setting. -/
inductive Datum where
  | text (s : String)
  | count (n : Nat)
  | time (t : Duration)
  deriving DecidableEq, Repr

inductive Field where
  | listen
  | clientQueue
  | inboxQueue
  | controlQueue
  | outboxQueue
  | registrationQueue
  | heartbeatInterval
  | heartbeatTimeout
  | maxFrameLen
  | chatRoom
  | chatWriteTimeout
  | logLevel
  deriving DecidableEq, Repr

def value (s : Settings) : Field → Datum
  | .listen => .text s.listen
  | .clientQueue => .count s.clientQueue
  | .inboxQueue => .count s.inboxQueue
  | .controlQueue => .count s.controlQueue
  | .outboxQueue => .count s.outboxQueue
  | .registrationQueue => .count s.registrationQueue
  | .heartbeatInterval => .time s.heartbeatInterval
  | .heartbeatTimeout => .time s.heartbeatTimeout
  | .maxFrameLen => .count s.maxFrameLen
  | .chatRoom => .text s.chatRoom
  | .chatWriteTimeout => .time s.chatWriteTimeout
  | .logLevel => .text s.logLevel

theorem eq_of_value {s s' : Settings} (h : ∀ field, s.value field = s'.value field) : s = s' := by
  cases s
  cases s'
  simp only [mk.injEq]
  refine ⟨Datum.text.inj (h .listen), Datum.count.inj (h .clientQueue),
    Datum.count.inj (h .inboxQueue), Datum.count.inj (h .controlQueue),
    Datum.count.inj (h .outboxQueue), Datum.count.inj (h .registrationQueue),
    Datum.time.inj (h .heartbeatInterval), Datum.time.inj (h .heartbeatTimeout),
    Datum.count.inj (h .maxFrameLen), Datum.text.inj (h .chatRoom),
    Datum.time.inj (h .chatWriteTimeout), Datum.text.inj (h .logLevel)⟩

/-- How a setting is written down. -/
inductive Kind where
  | text
  | count
  /-- A time in whole seconds. -/
  | seconds

/-- The value of this kind that a document's value stands for. -/
def Kind.ofToml? : Kind → Toml.Value → Option Datum
  | text, .text s => some (.text s)
  | count, .integer (.ofNat n) => some (.count n)
  | seconds, .integer (.ofNat n) => some (.time (.ofSecs n))
  | _, _ => none

theorem Kind.eq_text {kind : Kind} {w : Toml.Value} (hkind : kind = .text)
    (h : (kind.ofToml? w).isSome) : ∃ s, w = .text s := by
  unfold ofToml? at h
  split at h
  · exact ⟨_, rfl⟩
  all_goals cases hkind <;> cases h

theorem Kind.eq_integer {kind : Kind} {w : Toml.Value} (hkind : kind ≠ .text)
    (h : (kind.ofToml? w).isSome) : ∃ n : Nat, w = .integer (.ofNat n) := by
  unfold ofToml? at h
  split at h
  · exact absurd rfl hkind
  · exact ⟨_, rfl⟩
  · exact ⟨_, rfl⟩
  · cases h

/-- Where a setting is written in a document: in a group, which is a table with a name for it
or an array with a position for it. -/
structure Place where
  group : String
  name : String
  position : Nat

namespace Field

def kind : Field → Kind
  | listen | chatRoom | logLevel => .text
  | clientQueue | inboxQueue | controlQueue | outboxQueue | registrationQueue => .count
  | maxFrameLen => .count
  | heartbeatInterval | heartbeatTimeout | chatWriteTimeout => .seconds

def place : Field → Place
  | listen => ⟨"server", "listen", 0⟩
  | clientQueue => ⟨"queues", "client", 0⟩
  | inboxQueue => ⟨"queues", "inbox", 1⟩
  | controlQueue => ⟨"queues", "control", 2⟩
  | outboxQueue => ⟨"queues", "outbox", 3⟩
  | registrationQueue => ⟨"queues", "registrations", 4⟩
  | heartbeatInterval => ⟨"heartbeat", "interval_secs", 0⟩
  | heartbeatTimeout => ⟨"heartbeat", "timeout_secs", 1⟩
  | maxFrameLen => ⟨"protocol", "max_frame_len", 0⟩
  | chatRoom => ⟨"chat", "room", 0⟩
  | chatWriteTimeout => ⟨"chat", "write_timeout_secs", 1⟩
  | logLevel => ⟨"logging", "level", 0⟩

/-- What stands in a document in the place of a setting. -/
def written? (field : Field) (top : Toml.Entries) : Option Toml.Value :=
  match top.get? field.place.group with
  | some (.table _ entries) => Toml.Entries.get? entries field.place.name
  | some (.array items) => items[field.place.position]?
  | some (.tables elements) => elements[field.place.position]?.map (.table .header)
  | _ => none

/-- The value that a document sets a setting to. -/
def set? (field : Field) (top : Toml.Entries) : Option Datum :=
  (field.written? top).bind field.kind.ofToml?

end Field

/-- The values in a document that can be groups of settings. -/
def IsGroup : Toml.Value → Prop
  | .table _ _ | .array _ | .tables _ | .moment => True
  | _ => False

/-- The documents that give settings. -/
structure Fits (top : Toml.Entries) : Prop where
  group : ∀ (field : Field) w, top.get? field.place.group = some w → IsGroup w
  kind : ∀ (field : Field) w, field.written? top = some w → (field.kind.ofToml? w).isSome

end Settings

namespace FileSettings

open Settings (Field Datum Kind Fits IsGroup)

variable {top : Toml.Entries} {field : Field} {name : String} {g : Group}

section Places

theorem isSome_group?_iff :
    (group? top name).isSome ↔ ∀ w, top.get? name = some w → IsGroup w := by
  unfold group?
  cases htop : top.get? name with
  | none => simp
  | some w => cases w <;> simp [IsGroup]

theorem get?_eq_written? (hg : group? top field.place.group = some g) :
    g.get? field.place.name field.place.position = field.written? top := by
  unfold group? at hg
  unfold Field.written?
  split at hg <;> cases hg
  · next hnone =>
      rw [hnone]
      rfl
  · next hmoment =>
      rw [hmoment]
      rfl
  · next htable =>
      rw [htable]
      rfl
  · next harray =>
      rw [harray]
      rfl
  · next htables =>
      rw [htables]
      exact List.getElem?_map

end Places

section Values

/-- The value of a setting as far as a document decides it: what stands in its place, if that
is of its kind, or else the default. -/
def read? (field : Field) (top : Toml.Entries) : Option Datum :=
  match field.written? top with
  | none => some (Settings.default.value field)
  | some w => field.kind.ofToml? w

/-- The group of the setting can be read, and the setting has this value there. -/
def Reads (field : Field) (top : Toml.Entries) (d : Datum) : Prop :=
  (group? top field.place.group).isSome ∧ read? field top = some d

theorem reads_text {dflt s : String} (field : Field) (hkind : field.kind = .text)
    (hg : group? top field.place.group = some g)
    (hdflt : Settings.default.value field = .text dflt)
    (hs : g.text? field.place.name field.place.position dflt = some s) :
    Reads field top (.text s) := by
  refine ⟨Option.isSome_of_mem hg, ?_⟩
  rw [Group.text?, get?_eq_written? hg] at hs
  rw [read?, hkind, hdflt]
  split at hs
  · next hnone =>
      cases hs
      rw [hnone]
  · next htext =>
      cases hs
      rw [htext]
      rfl
  · cases hs

theorem reads_nat {dflt n : Nat} (field : Field) (datum : Nat → Datum)
    (hkind : ∀ n : Nat, field.kind.ofToml? (.integer (.ofNat n)) = some (datum n))
    (hg : group? top field.place.group = some g)
    (hdflt : Settings.default.value field = datum dflt)
    (hn : g.nat? field.place.name field.place.position dflt = some n) :
    Reads field top (datum n) := by
  refine ⟨Option.isSome_of_mem hg, ?_⟩
  rw [Group.nat?, get?_eq_written? hg] at hn
  rw [read?, hdflt]
  split at hn
  · next hnone =>
      cases hn
      rw [hnone]
  · next hinteger =>
      cases hn
      rw [hinteger]
      exact hkind n
  · cases hn

theorem reads_of_ofDocument? {f : FileSettings} (h : ofDocument? top = some f) (field : Field) :
    Reads field top (f.toSettings.value field) := by
  -- the settings are read in one chain, which is opened once for all of them
  obtain ⟨server, hserver, h⟩ := Option.bind_eq_some_iff.mp h
  obtain ⟨queues, hqueues, h⟩ := Option.bind_eq_some_iff.mp h
  obtain ⟨heartbeat, hheartbeat, h⟩ := Option.bind_eq_some_iff.mp h
  obtain ⟨protocol, hprotocol, h⟩ := Option.bind_eq_some_iff.mp h
  obtain ⟨chat, hchat, h⟩ := Option.bind_eq_some_iff.mp h
  obtain ⟨logging, hlogging, h⟩ := Option.bind_eq_some_iff.mp h
  obtain ⟨listen, hlisten, h⟩ := Option.bind_eq_some_iff.mp h
  obtain ⟨client, hclient, h⟩ := Option.bind_eq_some_iff.mp h
  obtain ⟨inbox, hinbox, h⟩ := Option.bind_eq_some_iff.mp h
  obtain ⟨control, hcontrol, h⟩ := Option.bind_eq_some_iff.mp h
  obtain ⟨outbox, houtbox, h⟩ := Option.bind_eq_some_iff.mp h
  obtain ⟨registrations, hregistrations, h⟩ := Option.bind_eq_some_iff.mp h
  obtain ⟨interval, hinterval, h⟩ := Option.bind_eq_some_iff.mp h
  obtain ⟨timeout, htimeout, h⟩ := Option.bind_eq_some_iff.mp h
  obtain ⟨length, hlength, h⟩ := Option.bind_eq_some_iff.mp h
  obtain ⟨room, hroom, h⟩ := Option.bind_eq_some_iff.mp h
  obtain ⟨write, hwrite, h⟩ := Option.bind_eq_some_iff.mp h
  obtain ⟨level, hlevel, h⟩ := Option.bind_eq_some_iff.mp h
  cases h
  let seconds (n : Nat) : Datum := .time (.ofSecs n)
  cases field with
  | listen => exact reads_text .listen rfl hserver rfl hlisten
  | clientQueue => exact reads_nat .clientQueue .count (fun _ => rfl) hqueues rfl hclient
  | inboxQueue => exact reads_nat .inboxQueue .count (fun _ => rfl) hqueues rfl hinbox
  | controlQueue => exact reads_nat .controlQueue .count (fun _ => rfl) hqueues rfl hcontrol
  | outboxQueue => exact reads_nat .outboxQueue .count (fun _ => rfl) hqueues rfl houtbox
  | registrationQueue =>
      exact reads_nat .registrationQueue .count (fun _ => rfl) hqueues rfl hregistrations
  | heartbeatInterval =>
      exact reads_nat .heartbeatInterval seconds (fun _ => rfl) hheartbeat rfl hinterval
  | heartbeatTimeout =>
      exact reads_nat .heartbeatTimeout seconds (fun _ => rfl) hheartbeat rfl htimeout
  | maxFrameLen => exact reads_nat .maxFrameLen .count (fun _ => rfl) hprotocol rfl hlength
  | chatRoom => exact reads_text .chatRoom rfl hchat rfl hroom
  | chatWriteTimeout => exact reads_nat .chatWriteTimeout seconds (fun _ => rfl) hchat rfl hwrite
  | logLevel => exact reads_text .logLevel rfl hlogging rfl hlevel

theorem exists_text? (h : Fits top) (field : Field) (hkind : field.kind = .text)
    (hg : group? top field.place.group = some g) (dflt : String) :
    ∃ s, g.text? field.place.name field.place.position dflt = some s := by
  rw [Group.text?, get?_eq_written? hg]
  cases hwritten : field.written? top with
  | none => exact ⟨dflt, rfl⟩
  | some w =>
      obtain ⟨s, rfl⟩ := Kind.eq_text hkind (h.kind field w hwritten)
      exact ⟨s, rfl⟩

theorem exists_nat? (h : Fits top) (field : Field) (hkind : field.kind ≠ .text)
    (hg : group? top field.place.group = some g) (dflt : Nat) :
    ∃ n, g.nat? field.place.name field.place.position dflt = some n := by
  rw [Group.nat?, get?_eq_written? hg]
  cases hwritten : field.written? top with
  | none => exact ⟨dflt, rfl⟩
  | some w =>
      obtain ⟨n, rfl⟩ := Kind.eq_integer hkind (h.kind field w hwritten)
      exact ⟨n, rfl⟩

theorem bind_of_eq_some {α β : Type} {x : Option α} {a : α} {f : α → Option β} {b : β}
    (hx : x = some a) (hf : f a = some b) : x.bind f = some b := by
  rw [hx, Option.bind_some, hf]

theorem exists_ofDocument? (h : Fits top) : ∃ f, ofDocument? top = some f := by
  have hgroup (field : Field) : ∃ g, group? top field.place.group = some g :=
    Option.isSome_iff_exists.mp (isSome_group?_iff.mpr (h.group field))
  obtain ⟨server, hserver⟩ := hgroup .listen
  obtain ⟨queues, hqueues⟩ := hgroup .clientQueue
  obtain ⟨heartbeat, hheartbeat⟩ := hgroup .heartbeatInterval
  obtain ⟨protocol, hprotocol⟩ := hgroup .maxFrameLen
  obtain ⟨chat, hchat⟩ := hgroup .chatRoom
  obtain ⟨logging, hlogging⟩ := hgroup .logLevel
  obtain ⟨listen, hlisten⟩ := exists_text? h .listen rfl hserver _
  obtain ⟨client, hclient⟩ := exists_nat? h .clientQueue nofun hqueues _
  obtain ⟨inbox, hinbox⟩ := exists_nat? h .inboxQueue nofun hqueues _
  obtain ⟨control, hcontrol⟩ := exists_nat? h .controlQueue nofun hqueues _
  obtain ⟨outbox, houtbox⟩ := exists_nat? h .outboxQueue nofun hqueues _
  obtain ⟨registrations, hregistrations⟩ := exists_nat? h .registrationQueue nofun hqueues _
  obtain ⟨interval, hinterval⟩ := exists_nat? h .heartbeatInterval nofun hheartbeat _
  obtain ⟨timeout, htimeout⟩ := exists_nat? h .heartbeatTimeout nofun hheartbeat _
  obtain ⟨length, hlength⟩ := exists_nat? h .maxFrameLen nofun hprotocol _
  obtain ⟨room, hroom⟩ := exists_text? h .chatRoom rfl hchat _
  obtain ⟨write, hwrite⟩ := exists_nat? h .chatWriteTimeout nofun hchat _
  obtain ⟨level, hlevel⟩ := exists_text? h .logLevel rfl hlogging _
  exact ⟨_, bind_of_eq_some hserver <| bind_of_eq_some hqueues <| bind_of_eq_some hheartbeat <|
    bind_of_eq_some hprotocol <| bind_of_eq_some hchat <| bind_of_eq_some hlogging <|
    bind_of_eq_some hlisten <| bind_of_eq_some hclient <| bind_of_eq_some hinbox <|
    bind_of_eq_some hcontrol <| bind_of_eq_some houtbox <| bind_of_eq_some hregistrations <|
    bind_of_eq_some hinterval <| bind_of_eq_some htimeout <| bind_of_eq_some hlength <|
    bind_of_eq_some hroom <| bind_of_eq_some hwrite <| bind_of_eq_some hlevel <| rfl⟩

theorem fits_of_ofDocument? {f : FileSettings} (h : ofDocument? top = some f) : Fits top where
  group field := isSome_group?_iff.mp (reads_of_ofDocument? h field).1
  kind field w hwritten := by
    obtain ⟨-, hread⟩ := reads_of_ofDocument? h field
    rw [read?, hwritten] at hread
    exact Option.isSome_of_mem hread

theorem value_of_ofDocument? {f : FileSettings} (h : ofDocument? top = some f) (field : Field) :
    f.toSettings.value field = (field.set? top).getD (Settings.default.value field) := by
  obtain ⟨-, hread⟩ := reads_of_ofDocument? h field
  unfold read? at hread
  unfold Field.set?
  split at hread
  · next hnone =>
      rw [hnone]
      exact (Option.some.inj hread).symm
  · next w hsome =>
      rw [hsome, Option.bind_some, hread, Option.getD_some]

end Values

end FileSettings

end HookRelay
