import HookRelay.EventLoop

namespace HookRelay.EventLoop

/-- What can happen to an event loop. -/
inductive Action where
  /-- A call begins, through a sender of its kind. It is refused if the loop has been
  told to stop. -/
  | call (ticket : Nat) (a : Ask)
  /-- A call that has begun comes to its intake. -/
  | bring (ticket : Nat)
  /-- The first in line at the intake for events learns what becomes of it. -/
  | serveEvent
  /-- The first in line at the intake for commands learns what becomes of it. -/
  | serveCommand
  /-- A request to register a client for a socket is made. -/
  | request (socket : Nat)
  /-- The first in line at the intake for requests learns what becomes of it. -/
  | serveRequest
  /-- The first in line at the intake for messages is let in. -/
  | serveMessage
  /-- One more caller keeps a sender of events. -/
  | addEventSender
  | dropEventSender
  | dropCommandSender
  | dropRequestSender
  | stop
  /-- The loop sees that it has been told to stop. -/
  | quit
  /-- The loop takes an event, or finds that none can come. -/
  | takeEvent
  /-- The loop takes a command, or finds that none can come. -/
  | takeCommand
  /-- The loop takes a request, or finds that none can come. -/
  | takeRequest
  /-- The loop takes a message and hands its line to the chat session. -/
  | takeMessage
  /-- The chat session is done with a line. -/
  | chatEnds (o : ChatOutcome)
  deriving DecidableEq

/-- A call comes to an intake: the call ends, or it waits in line. -/
def settleCall (ticket : Nat) (entry : Entry) (l : EventLoop) : EventLoop :=
  match entry with
  | .accepted => l.answer ticket none
  | .refused => l.answer ticket (some .stopped)
  | .waits => l

def bringAsk (ticket : Nat) (a : Ask) (l : EventLoop) : EventLoop :=
  match a with
  | .event e =>
    let (entry, events) := l.events.bring ticket e
    settleCall ticket entry { l with events }
  | .command c =>
    let (entry, commands) := l.commands.bring ticket c
    settleCall ticket entry { l with commands }

/-- Lets the first in line in, or sends it away: its ticket, its error and the
intake after that. -/
def serve {α : Type} (i : Intake α) : Option (Nat × Option CallError × Intake α) :=
  match i.letIn with
  | some (ticket, i) => some (ticket, none, i)
  | none => i.dismiss.map fun (ticket, i) => (ticket, some .stopped, i)

/-- Whether a call of this kind has begun that may still come to its intake. -/
def hasBegun (kind : Ask → Bool) (l : EventLoop) : Bool := l.begun.any fun c => kind c.2

def takeEvent (l : EventLoop) : Option EventLoop :=
  if !l.eventsOpen then none
  else
    match l.events.take with
    | (.item e, events) => some ({ l with events }.dispatch e)
    | (.disconnected, _) =>
      if l.hasBegun Ask.isEvent then none else some { l with eventsOpen := false }.checkOver
    | (.empty, _) => none

def takeCommand (l : EventLoop) : Option EventLoop :=
  if !l.commandsOpen then none
  else
    match l.commands.take with
    | (.item c, commands) => some ({ l with commands }.write [.commandIgnored c.text])
    | (.disconnected, _) =>
      if l.hasBegun (!·.isEvent) then none else some { l with commandsOpen := false }.checkOver
    | (.empty, _) => none

def takeRequest (l : EventLoop) : Option EventLoop :=
  if !l.requestsOpen then none
  else
    match l.requests.take with
    | (.item k, requests) => some ({ l with requests }.register k)
    | (.disconnected, _) => some { l with requestsOpen := false }.checkOver
    | (.empty, _) => none

def takeMessage (now : Nat) (l : EventLoop) : Option EventLoop :=
  match l.outbox.take with
  | (.item m, outbox) =>
    some { l with outbox, phase := .forwarding (.ofMessage l.room m) now }
  | _ => none

/-- What the loop does when it waits for whatever comes next. -/
def stepReady (now : Nat) (a : Action) (l : EventLoop) : Option EventLoop :=
  match a with
  | .quit => if l.stopping then some l.exit else none
  | .takeEvent => l.takeEvent
  | .takeCommand => l.takeCommand
  | .takeRequest => l.takeRequest
  | .takeMessage => l.takeMessage now
  | _ => none

/-- Whether there is a sender left through which something could be asked. -/
def hasSender (a : Ask) (l : EventLoop) : Bool :=
  if a.isEvent then l.events.queue.senders > 0 else l.commands.queue.senders > 0

/-- What others do around the loop. -/
def stepAround (a : Action) (l : EventLoop) : Option EventLoop :=
  match a with
  | .call ticket ask =>
    if !l.hasSender ask then none
    else if l.stopping then some (l.answer ticket (some .stopped))
    else some { l with begun := l.begun ++ [(ticket, ask)] }
  | .bring ticket =>
    (l.begun.find? (·.1 == ticket)).map fun (_, ask) =>
      bringAsk ticket ask { l with begun := l.begun.eraseP (·.1 == ticket) }
  | .serveEvent =>
    (serve l.events).map fun (ticket, e, events) => { l with events }.answer ticket e
  | .serveCommand =>
    (serve l.commands).map fun (ticket, e, commands) => { l with commands }.answer ticket e
  | .request socket =>
    if l.requests.queue.senders = 0 then none
    else
      match l.requests.bring socket socket with
      | (.refused, _) => some (l.reply socket none)
      | (_, requests) => some { l with requests }
  | .serveRequest =>
    match l.requests.letIn with
    | some (_, requests) => some { l with requests }
    | none => l.requests.dismiss.map fun (socket, requests) =>
      { l with requests }.reply socket none
  | .serveMessage => l.outbox.letIn.map fun (_, outbox) => { l with outbox }
  | .addEventSender =>
    if l.events.queue.senders = 0 then none else some { l with events := l.events.addSender }
  | .dropEventSender => some { l with events := l.events.dropSender }
  | .dropCommandSender => some { l with commands := l.commands.dropSender }
  | .dropRequestSender => some { l with requests := l.requests.dropSender }
  | .stop => some { l with stopping := true }
  | _ => none

/-- One step at an instant, if it can be taken. -/
def step (now : Nat) (a : Action) (l : EventLoop) : Option EventLoop :=
  match a, l.phase with
  | .chatEnds .late, .forwarding s since =>
    if now < since + l.chatLimit.nanos then none else some (l.finishChat s .late)
  | .chatEnds o, .forwarding s _ => some (l.finishChat s o)
  | a, .ready => (l.stepReady now a).or (l.stepAround a)
  | a, _ => l.stepAround a

end HookRelay.EventLoop
