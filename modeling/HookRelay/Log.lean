import HookRelay.Failure

namespace HookRelay

/-- One line of the log. -/
inductive LogEntry where
  | clientRegistered (client : UInt64) (clients : Nat)
  | queueFull (client : UInt64) (message : Int64)
  | connectionGone (client : UInt64)
  | clientsDropped (pruned clients : Nat)
  | chatWriteFailed (e : ChatError)
  | commandIgnored (text : String)
  | restarting (task reason : String)
  | loopStateKept (counter : Int64) (clients : Nat)
  | connectionFault (client : UInt64) (half : Half) (reason : String)
  | pongReceived (client : UInt64)
  | loopGone (client : UInt64)
  | connectionFailed (client : UInt64) (e : ConnectionError)
  | connectionClosed (client : UInt64)
  | loopExited (counter : Int64)
  | listenerExited (runs : Nat)
  | listenFailed (reason : String)
  deriving DecidableEq, Repr

def LogEntry.text : LogEntry → String
  | .clientRegistered client clients =>
    "Client registered client=" ++ toString client ++ " clients=" ++ toString clients
  | .queueFull client message =>
    "Client queue full, dropping client client=" ++ toString client ++
      " id=" ++ toString message.toInt
  | .connectionGone client =>
    "Client connection gone, dropping registration client=" ++ toString client
  | .clientsDropped pruned clients =>
    "Dropped unresponsive clients pruned=" ++ toString pruned ++ " clients=" ++ toString clients
  | .chatWriteFailed e => "Failed to write message to chat stream error=" ++ e.text
  | .commandIgnored text => "Ignoring command cmd=" ++ text
  | .restarting task reason =>
    "Caught panic, restarting task=" ++ task ++ " error=" ++ reason
  | .loopStateKept counter clients =>
    "Event loop state kept across restart counter=" ++ toString counter.toInt ++
      " clients=" ++ toString clients
  | .connectionFault client half reason =>
    "Caught panic in connection task client=" ++ toString client ++
      " task=" ++ half.text ++ " error=" ++ reason
  | .pongReceived client => "Received pong client=" ++ toString client
  | .loopGone client => "Event loop gone, closing connection client=" ++ toString client
  | .connectionFailed client e =>
    "Connection failed client=" ++ toString client ++ " error=" ++ e.text
  | .connectionClosed client => "Connection closed client=" ++ toString client
  | .loopExited counter => "Event loop exited counter=" ++ toString counter.toInt
  | .listenerExited runs => "Listener exited runs=" ++ toString runs
  | .listenFailed reason => "Failed to start listener, hooks disabled error=" ++ reason

end HookRelay
