import HookRelay.Proofs.EventLoop.Recipients
import HookRelay.Proofs.EventLoop.Restarts
import HookRelay.Proofs.Registry.Broadcast

namespace HookRelay

theorem Client.id_shutDown (c : Client) : c.shutDown.id = c.id := by
  unfold shutDown
  split
  · rfl
  · rfl

namespace EventLoop

/-- The sockets whose requests have been made and are not decided. -/
def undecided (l : EventLoop) : List Nat :=
  l.requests.queue.items ++ l.requests.line.map (·.1)

/-- Whoever waits in line with a request does so under the number of the socket. -/
def NamesSockets (l : EventLoop) : Prop := ∀ x ∈ l.requests.line, x.1 = x.2

/-- The socket for which a step makes a request. -/
def requesting : Action → List Nat
  | .request socket => [socket]
  | _ => []

/-- What the loop decides about a request, with the position of the client. -/
def decision (socket : Nat) (l : EventLoop) : Nat × Option Nat :=
  (socket, if IsCapacity l.registry.capacity then some l.registry.clients.length else none)

/-- How requests are decided one after another, beginning without clients. -/
def decisions (capacity : Nat) (sockets : List Nat) : List (Nat × Option Nat) :=
  sockets.mapIdx fun k socket => (socket, if IsCapacity capacity then some k else none)

/-- Every request that was there, or has been made now, is decided once or is still there. -/
structure Decides (asked : List Nat) (l l' : EventLoop) : Prop where
  names : l'.NamesSockets
  decided : ∃ decided : List (Nat × Option Nat), l'.replies = l.replies ++ decided ∧
    (decided.map (·.1) ++ l'.undecided).Perm (l.undecided ++ asked)

variable {l l' : EventLoop} {asked : List Nat} {a : Action} {now : Nat}

namespace Decides

theorem of_perm (hnames : l'.NamesSockets) (hreplies : l'.replies = l.replies)
    (h : l'.undecided.Perm (l.undecided ++ asked)) : Decides asked l l' :=
  ⟨hnames, [], by rw [hreplies, List.append_nil], h⟩

theorem of_eq (hnames : l.NamesSockets) (hitems : l'.requests.queue.items = l.requests.queue.items)
    (hline : l'.requests.line = l.requests.line) (hreplies : l'.replies = l.replies) :
    Decides [] l l' := by
  refine of_perm ?_ hreplies ?_
  · rwa [NamesSockets, hline]
  · rw [undecided, hitems, hline, List.append_nil, undecided]

theorem refl (hnames : l.NamesSockets) : Decides [] l l := .of_eq hnames rfl rfl rfl

theorem exit (h : Decides asked l l') : Decides asked l l'.exit := by
  obtain ⟨decided, hreplies, hperm⟩ := h.decided
  refine ⟨h.names, decided ++ l'.requests.queue.items.map (·, none), ?_, ?_⟩
  · rw [← List.append_assoc, ← hreplies]
    rfl
  · rw [List.map_append, List.map_map, List.append_assoc]
    change (_ ++ (l'.requests.queue.items.map id ++ _)).Perm _
    rw [List.map_id]
    exact hperm

theorem checkOver (h : Decides asked l l') : Decides asked l l'.checkOver := by
  unfold EventLoop.checkOver
  split
  · exact h
  · exact h.exit

theorem of_nil (h : Decides asked l l') (hnone : l.undecided ++ asked = []) :
    l'.replies = l.replies ∧ l'.undecided = [] := by
  obtain ⟨decided, hreplies, hperm⟩ := h.decided
  rw [hnone] at hperm
  obtain ⟨hdecided, hundecided⟩ := List.append_eq_nil_iff.mp hperm.eq_nil
  rw [hreplies, List.map_eq_nil_iff.mp hdecided, List.append_nil]
  exact ⟨rfl, hundecided⟩

theorem of_singleton {socket : Nat} (h : Decides asked l l')
    (hone : l.undecided ++ asked = [socket]) :
    l'.replies = l.replies ∧ l'.undecided = [socket] ∨
      ∃ client, l'.replies = l.replies ++ [(socket, client)] ∧ l'.undecided = [] := by
  obtain ⟨decided, hreplies, hperm⟩ := h.decided
  rw [hone] at hperm
  rcases List.append_eq_singleton_iff.mp (List.perm_singleton.mp hperm) with
    ⟨hdecided, hundecided⟩ | ⟨hdecided, hundecided⟩
  · rw [hreplies, List.map_eq_nil_iff.mp hdecided, List.append_nil]
    exact .inl ⟨rfl, hundecided⟩
  · obtain ⟨⟨k, client⟩, rfl, rfl⟩ := List.map_eq_singleton_iff.mp hdecided
    exact .inr ⟨client, hreplies, hundecided⟩

end Decides

theorem register_replies (socket : Nat) :
    (l.register socket).requests = l.requests ∧
      (l.register socket).replies = l.replies ++ [l.decision socket] := by
  unfold register decision
  by_cases hcapacity : IsCapacity l.registry.capacity
  · obtain ⟨c, hregister⟩ := Registry.register_eq_of_isCapacity hcapacity
    rw [hregister, if_pos hcapacity]
    exact ⟨rfl, rfl⟩
  · obtain ⟨e, hregister⟩ := Registry.register_eq_of_not_isCapacity hcapacity
    rw [hregister, if_neg hcapacity]
    exact ⟨rfl, rfl⟩

theorem register_decides {socket : Nat} {requests : Intake Nat} (hnames : l.NamesSockets)
    (htake : l.requests.take = (.item socket, requests)) :
    Decides [] l ({ l with requests }.register socket) := by
  have hline := Intake.line_of_take htake
  have hundecided : l.undecided = socket :: (requests.queue.items ++ requests.line.map (·.1)) := by
    rw [undecided, Intake.items_of_take htake, hline, List.cons_append]
  obtain ⟨hrequests, hreplies⟩ := register_replies (l := { l with requests }) socket
  refine ⟨?_, [l.decision socket], hreplies, ?_⟩
  · rw [NamesSockets, hrequests, hline]
    exact hnames
  · rw [hundecided, undecided, hrequests, List.append_nil]
    exact .refl _

theorem Turn.decides (hnames : l.NamesSockets) (h : Turn now l a l') : Decides [] l l' := by
  cases h with
  | quits => exact (Decides.refl hnames).exit
  | noEvent | noCommand | noRequest => exact .checkOver (.of_eq hnames rfl rfl rfl)
  | request _ htake => exact register_decides hnames htake
  | event | command | message => exact .of_eq hnames rfl rfl rfl

theorem bring_decides {socket : Nat} {entry : Entry} {requests : Intake Nat}
    (hnames : l.NamesSockets) (hentry : entry ≠ .refused)
    (hbring : l.requests.bring socket socket = (entry, requests)) :
    Decides [socket] l { l with requests } := by
  unfold Intake.bring at hbring
  split at hbring
  · cases hbring
    exact absurd rfl hentry
  · next hlistening =>
    split at hbring
    · next hroom =>
      obtain ⟨hline, hroom⟩ := Bool.and_eq_true_iff.mp hroom
      rw [Bool.not_eq_true, Bool.not_eq_false'] at hlistening
      cases hbring
      refine .of_perm hnames rfl ?_
      simp [undecided, Mailbox.offer, hlistening, hroom, List.isEmpty_iff.mp hline]
    · cases hbring
      refine .of_perm ?_ rfl ?_
      · intro x hx
        rcases List.mem_append.mp hx with hx | hx
        · exact hnames x hx
        · rw [List.mem_singleton.mp hx]
      · simp [undecided]

theorem bringAsk_same (ticket : Nat) (ask : Ask) :
    (bringAsk ticket ask l).requests = l.requests ∧
      (bringAsk ticket ask l).replies = l.replies ∧
      (bringAsk ticket ask l).registry = l.registry := by
  have hsettle : ∀ (entry : Entry) (l : EventLoop),
      (settleCall ticket entry l).requests = l.requests ∧
        (settleCall ticket entry l).replies = l.replies ∧
        (settleCall ticket entry l).registry = l.registry := by
    intro entry l
    cases entry with
    | accepted | refused | waits => exact ⟨rfl, rfl, rfl⟩
  cases ask with
  | event e => exact hsettle _ _
  | command c => exact hsettle _ _

theorem Around.decides (hnames : l.NamesSockets) (h : Around l a l') :
    Decides (requesting a) l l' := by
  cases h with
  | @bring ticket _ ask =>
      obtain ⟨hrequests, hreplies, -⟩ := bringAsk_same
        (l := { l with begun := l.begun.eraseP (·.1 == ticket) }) ticket ask
      exact .of_eq hnames (by rw [hrequests]) (by rw [hrequests]) hreplies
  | @requestRefused socket => exact ⟨hnames, [(socket, none)], rfl, List.perm_append_comm⟩
  | request _ hentry hbring => exact bring_decides hnames hentry hbring
  | @requestLetIn ticket requests hletIn =>
      -- A request that is let in goes from the line, where its ticket names it, into the queue.
      obtain ⟨b, hline, hitems⟩ := Intake.exists_of_letIn hletIn
      obtain rfl : ticket = b := hnames _ (hline ▸ List.mem_cons_self)
      refine .of_perm (fun x hx => hnames x (hline ▸ List.mem_cons_of_mem _ hx)) rfl ?_
      simp [undecided, hitems, hline, requesting]
  | @requestDismissed socket requests _ hdismiss =>
      obtain ⟨b, hline⟩ := Intake.exists_of_dismiss hdismiss
      have hundecided : l.undecided =
          requests.queue.items ++ socket :: requests.line.map (·.1) := by
        rw [undecided, hline, Intake.queue_of_dismiss hdismiss]
        rfl
      refine ⟨fun x hx => hnames x (hline ▸ List.mem_cons_of_mem _ hx), [(socket, none)], rfl,
        ?_⟩
      change (socket :: (requests.queue.items ++ requests.line.map (·.1))).Perm (l.undecided ++ [])
      rw [hundecided, List.append_nil]
      exact List.perm_middle.symm
  | callRefused | call | serveEvent | serveCommand | serveMessage | addEventSender
  | dropEventSender | dropCommandSender | dropRequestSender | stop =>
      exact .of_eq hnames rfl rfl rfl

/-- Whatever the loop and its callers do, no request is lost or decided twice. -/
theorem step_decides (hnames : l.NamesSockets) (h : l.step now a = some l') :
    Decides (requesting a) l l' := by
  rcases step_cases h with ⟨o, s, since, rfl, -, -, rfl⟩ | ⟨-, hturn⟩ | haround
  · cases o <;> exact .of_eq hnames rfl rfl rfl
  · have hnone : requesting a = [] := by cases hturn <;> rfl
    rw [hnone]
    exact hturn.decides hnames
  · exact haround.decides hnames

/-- The clients have their positions for ids, and the next client gets the next one, if there
can be any. -/
structure Numbers (l : EventLoop) : Prop where
  ids : l.registry.clients.map (·.id) =
    (List.range l.registry.clients.length).map UInt64.ofNat
  next : IsCapacity l.registry.capacity →
    l.registry.nextId = UInt64.ofNat l.registry.clients.length

namespace Numbers

theorem of_eq (h : Numbers l)
    (hids : l'.registry.clients.map (·.id) = l.registry.clients.map (·.id))
    (hcapacity : l'.registry.capacity = l.registry.capacity)
    (hnext : l'.registry.nextId = l.registry.nextId) : Numbers l' := by
  have hlength : l'.registry.clients.length = l.registry.clients.length := by
    simpa using congrArg List.length hids
  constructor
  · rw [hids, hlength, h.ids]
  · rw [hcapacity, hnext, hlength]
    exact h.next

theorem map (h : Numbers l) {f : Client → Client} (hf : ∀ c, (f c).id = c.id)
    (hclients : l'.registry.clients = l.registry.clients.map f)
    (hcapacity : l'.registry.capacity = l.registry.capacity)
    (hnext : l'.registry.nextId = l.registry.nextId) : Numbers l' := by
  refine h.of_eq ?_ hcapacity hnext
  rw [hclients, List.map_map]
  exact List.map_congr_left fun c _ => hf c

theorem modifyClient (h : Numbers l) (k : Nat) {f : Client → Client}
    (hf : ∀ c, (f c).id = c.id) :
    Numbers (l.modifyClient k f) := by
  refine h.of_eq (List.ext_getElem? fun j => ?_) rfl rfl
  change ((l.registry.clients.modify k f).map (·.id))[j]? = _
  rw [List.getElem?_map, List.getElem?_map, List.getElem?_modify]
  rcases l.registry.clients[j]? with _ | c
  · rfl
  · by_cases hk : k = j <;> simp [hk, hf]

theorem exit (h : Numbers l) : Numbers l.exit := h.map Client.id_shutDown rfl rfl rfl

theorem checkOver (h : Numbers l) : Numbers l.checkOver := by
  unfold EventLoop.checkOver
  split
  · exact h
  · exact h.exit

theorem register (h : Numbers l) (socket : Nat) : Numbers (l.register socket) := by
  by_cases hcapacity : IsCapacity l.registry.capacity
  · have hcreate : (Mailbox.create l.registry.capacity : Except CapacityError (Mailbox Message)) =
        .ok { capacity := l.registry.capacity } := Mailbox.create_eq_ok_iff.mpr ⟨hcapacity, rfl⟩
    have hnext := h.next hcapacity
    rw [EventLoop.register, Registry.register, hcreate]
    constructor
    · change (l.registry.clients ++ [_]).map Client.id =
        (List.range (l.registry.clients ++ [_]).length).map UInt64.ofNat
      rw [List.map_append, h.ids, List.length_append, List.length_singleton, List.range_succ,
        List.map_append, List.map_singleton, List.map_singleton, hnext]
    · intro _
      change l.registry.nextId + 1 = UInt64.ofNat (l.registry.clients ++ [_]).length
      rw [List.length_append, List.length_singleton, UInt64.ofNat_add, hnext]
      rfl
  · obtain ⟨e, hregister⟩ := Registry.register_eq_of_not_isCapacity hcapacity
    rw [EventLoop.register, hregister]
    exact ⟨h.ids, fun hcapacity' => absurd hcapacity' hcapacity⟩

theorem turn (h : Numbers l) (hturn : Turn now l a l') : Numbers l' := by
  cases hturn with
  | quits => exact h.exit
  | @event e events =>
      refine h.map (f := fun c => (c.offer (.ofEvent e l.counter)).1)
        (fun c => (Client.offer_frame _ c).1) ?_ rfl rfl
      simp [dispatch, write, Registry.broadcast]
  | noEvent | noCommand | noRequest =>
      exact checkOver (h.of_eq rfl rfl rfl)
  | @request socket requests =>
      have hsame : Numbers { l with requests } := h.of_eq rfl rfl rfl
      exact hsame.register socket
  | command | message => exact h.of_eq rfl rfl rfl

theorem around (h : Numbers l) (haround : Around l a l') : Numbers l' := by
  cases haround with
  | @bring ticket _ ask =>
      obtain ⟨-, -, hregistry⟩ := bringAsk_same
        (l := { l with begun := l.begun.eraseP (·.1 == ticket) }) ticket ask
      exact h.of_eq (by rw [hregistry]) (by rw [hregistry]) (by rw [hregistry])
  | callRefused | call | serveEvent | serveCommand | requestRefused | request | requestLetIn
  | requestDismissed | serveMessage | addEventSender | dropEventSender | dropCommandSender
  | dropRequestSender | stop => exact h.of_eq rfl rfl rfl

theorem happen {o : Happening} (h : Numbers l) (hhappen : l.happen o = some l') : Numbers l' := by
  cases o with
  | step now a =>
      rcases step_cases hhappen with ⟨o, s, _, rfl, -, -, rfl⟩ | ⟨-, hturn⟩ | haround
      · cases o <;> exact h.of_eq rfl rfl rfl
      · exact h.turn hturn
      · exact h.around haround
  | takeInbox | dropInbox | stopClient =>
      cases hhappen
      exact h.modifyClient _ fun _ => rfl
  | bring | leave | dropMessageSender | note =>
      cases hhappen
      exact h.of_eq rfl rfl rfl

theorem run {settings : Settings} {start : EventLoop} {hs : List Happening}
    (hcreate : create settings = .ok start) (hrun : start.run hs = some l) : Numbers l := by
  refine Steps.run_induction (P := fun _ l => Numbers l) ?_
    (fun _ _ _ _ _ ih hhappen => ih.happen hhappen) hrun
  rw [eq_of_create hcreate]
  exact ⟨rfl, fun _ => rfl⟩

theorem id_eq {k : Nat} {c : Client} (h : Numbers l) (hc : l.registry.clients[k]? = some c) :
    c.id = UInt64.ofNat k := by
  have hk := (List.getElem?_eq_some_iff.mp hc).1
  have hids : (l.registry.clients.map (·.id))[k]? = some (UInt64.ofNat k) := by
    rw [h.ids, List.getElem?_map, List.getElem?_range hk]
    rfl
  rw [List.getElem?_map, hc] at hids
  exact Option.some.inj hids

end Numbers

section Decisions

theorem admitted_decisions (capacity : Nat) (sockets : List Nat) :
    admitted (decisions capacity sockets) =
      if IsCapacity capacity then List.range sockets.length else [] := by
  rw [admitted, decisions, List.mapIdx_eq_zipIdx_map, List.filterMap_map]
  split
  · rw [List.range_eq_range', ← List.zipIdx_map_snd]
    exact congrFun (List.filterMap_eq_map (f := Prod.snd)) _
  · exact List.filterMap_eq_nil_iff.mpr fun _ _ => rfl

theorem exists_accounts {settings : Settings} {start : EventLoop} {hs : List Happening}
    (hcreate : create settings = .ok start) (hrun : start.run hs = some l) :
    ∃ sent pending joined, Accounts sent pending joined l := by
  refine Steps.run_induction (P := fun _ l =>
    ∃ sent pending joined, Accounts sent pending joined l)
    ⟨_, _, _, create_accounts hcreate⟩ ?_ hrun
  rintro hs h l l' - ⟨sent, pending, joined, hl⟩ hhappen
  cases h with
  | step now a =>
      obtain ⟨sent', pending', joined', -, hl', -⟩ := hl.moves (step_moves hhappen)
      exact ⟨sent', pending', joined', hl'⟩
  | takeInbox k | dropInbox k | stopClient k =>
      cases hhappen
      have hlength : ∀ f, (l.registry.clients.modify k f).length = l.registry.clients.length :=
        fun f => List.length_modify f _ k
      exact ⟨sent, pending, joined, hl.counter, hl.pending, hl.joined.trans (hlength _).symm,
        hl.replies.trans (congrArg List.range (hlength _).symm)⟩
  | bring | leave | dropMessageSender | note =>
      cases hhappen
      exact ⟨sent, pending, joined, hl.counter, hl.pending, hl.joined, hl.replies⟩

theorem decisions_append_handling {h : Happening} {sockets : List Nat}
    (hreplies : l.replies = decisions l.registry.capacity sockets)
    (hadmitted : admitted l.replies = List.range l.registry.clients.length) :
    decisions l.registry.capacity (sockets ++ l.handling .requests h) =
      l.replies ++ (l.handling .requests h).map fun socket => l.decision socket := by
  have hlength := length_handling_le (s := .requests) (l := l) (h := h)
  match hhandling : l.handling .requests h with
  | [] => rw [List.map_nil, List.append_nil, List.append_nil, hreplies]
  | [socket] =>
      have hdecision : l.decision socket =
          (socket, if IsCapacity l.registry.capacity then some sockets.length else none) := by
        rw [hreplies, admitted_decisions] at hadmitted
        unfold decision
        split
        · next hcapacity =>
          rw [if_pos hcapacity] at hadmitted
          have hcount := congrArg List.length hadmitted
          rw [List.length_range, List.length_range] at hcount
          rw [hcount]
        · rfl
      rw [List.map_singleton, hdecision, hreplies]
      exact List.mapIdx_concat
  | _ :: _ :: _ =>
      rw [hhandling] at hlength
      exact absurd hlength (by simp)

/-- A client that has just been registered is the next one, with an empty queue. -/
theorem eq_of_registered {settings : Settings} {start : EventLoop} {hs : List Happening}
    {h : Happening} {k : Nat} {c : Client} (hcreate : create settings = .ok start)
    (hrun : start.run hs = some l) (hhappen : l.happen h = some l')
    (hnone : l.registry.clients[k]? = none) (hc : l'.registry.clients[k]? = some c) :
    c = { id := UInt64.ofNat k, inbox := { capacity := settings.clientQueue } } := by
  have hid := (Numbers.run hcreate (Steps.run_concat hrun hhappen)).id_eq hc
  obtain ⟨rfl, -⟩ := (happen_treats hhappen).new k c hnone hc
  have hcapacity : l.registry.capacity = settings.clientQueue := by
    rw [capacity_run hrun, eq_of_create hcreate]
  rw [← hid, ← hcapacity]

end Decisions

end EventLoop

end HookRelay
