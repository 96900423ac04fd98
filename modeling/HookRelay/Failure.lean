import HookRelay.Wire.Frame

namespace HookRelay

/-- A task that broke down in the middle of its work, with the reason it left
behind, if that is a text. -/
inductive Fault where
  | reason (text : String)
  | noReason
  deriving DecidableEq, Repr

def Fault.text : Fault → String
  | .reason text => text
  | .noReason => "unknown panic payload"

/-- A queue that cannot be created: it would hold nothing, or more items than
permits can be counted. -/
inductive CapacityError where
  | zero
  | tooLarge
  deriving DecidableEq, Repr

/-- The greatest capacity of a queue. -/
def maxCapacity : Nat := 2305843009213693951

def CapacityError.text : CapacityError → String
  | .zero => "mpsc bounded channel requires buffer > 0"
  | .tooLarge =>
    "a semaphore may not have more than MAX_PERMITS permits (" ++ toString maxCapacity ++ ")"

/-- The two tasks of a connection that can fail. -/
inductive Half where
  | writer
  | reader
  deriving DecidableEq, Repr

def Half.text : Half → String
  | .writer => "writer"
  | .reader => "reader"

/-- Why a connection is torn down. -/
inductive ConnectionError where
  | frame (e : FrameError)
  | fault (task reason : String)
  deriving DecidableEq, Repr

namespace ConnectionError

def text : ConnectionError → String
  | frame e => e.text
  | fault task reason => "caught panic in " ++ task ++ ": " ++ reason

def cause : ConnectionError → Option String
  | frame e => e.cause
  | fault _ _ => none

end ConnectionError

/-- Why a line did not reach the chat session. -/
inductive ChatError where
  | write (cause : String)
  | deadline (limit : Duration)
  deriving DecidableEq, Repr

namespace ChatError

def text : ChatError → String
  | write cause => "chat stream write failed: " ++ cause
  | deadline limit => "chat stream write timed out after " ++ limit.text

def cause : ChatError → Option String
  | write cause => some cause
  | deadline _ => none

end ChatError

/-- Why a call on the relay is refused. -/
inductive CallError where
  | stopped
  deriving DecidableEq, Repr

def CallError.text : CallError → String
  | .stopped => "executor is stopped"

end HookRelay
