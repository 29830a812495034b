import StoneBoard.Worker

/-!
# Callers

The other end of a worker.  A handle collects what has arrived and hands it out when polled: log
messages until the first message that is none, which ends the run.  Waiting is polling again and
again, and can be given up.
-/

namespace StoneBoard

structure Completion where
  board : Board
  result : Bindings

inductive Poll where
  | pending
  | log (text : String)
  | done (outcome : Except Error Completion)

structure Handle where
  /-- what has arrived and has not been seen, the oldest first -/
  inbox : List (Except Error Message)
  closed : Bool
  finished : Bool

namespace Handle

def start : Handle := ⟨[], false, false⟩

def deliver (handle : Handle) (arrival : Except Error Message) : Handle :=
  { handle with inbox := handle.inbox ++ [arrival] }

def close (handle : Handle) : Handle := { handle with closed := true }

/-- The outcome that a message announces, if it is not a log message. -/
def outcomeOf : Message → Except Error Completion
  | .ok board result =>
      match Board.ofText board with
      | .ok board => .ok ⟨board, result⟩
      | .error fault => .error (.ofCause (.boardFormat fault.message))
  | .fail report => .error (.ofReport report)
  | other =>
      .error (.ofCause (.protocol s!"unexpected message from worker: {other.describe}"))

def abandoned : Error := .ofCause (.protocol "worker exited without a result")

def poll (handle : Handle) : Poll × Handle :=
  if handle.finished then (.pending, handle)
  else
    let ended : Handle := { handle with finished := true }
    match handle.inbox with
    | [] => if handle.closed then (.done (.error abandoned), ended) else (.pending, handle)
    | .ok (.log text) :: rest => (.log text, { handle with inbox := rest })
    | .ok message :: rest => (.done (outcomeOf message), { ended with inbox := rest })
    | .error error :: rest => (.done (.error error), { ended with inbox := rest })

def abort (handle : Handle) : Error × Handle :=
  (.interrupted, { handle with finished := true })

theorem inbox_poll_lt {handle next : Handle} {text : String}
    (polled : handle.poll = (.log text, next)) :
    next.inbox.length < handle.inbox.length := by
  unfold poll at polled
  split at polled
  · simp at polled
  · split at polled
    · split at polled <;> simp at polled
    · rename_i arrived
      simp only [Prod.mk.injEq] at polled
      rw [← polled.2, arrived]
      simp
    · simp at polled
    · simp at polled

/-- Polls until nothing is pending or the run is over: the log messages, and the outcome. -/
def drain (handle : Handle) : List String × Option (Except Error Completion) × Handle :=
  match polled : handle.poll with
  | (.log text, next) =>
      let (texts, outcome, last) := next.drain
      (text :: texts, outcome, last)
  | (.done outcome, next) => ([], some outcome, next)
  | (.pending, next) => ([], none, next)
termination_by handle.inbox.length
decreasing_by exact inbox_poll_lt polled

structure Transcript where
  arrivals : List (Except Error Message)
  /-- whether the worker ends after that -/
  ends : Bool

def receive (handle : Handle) (transcript : Transcript) : Handle :=
  let handle := transcript.arrivals.foldl deliver handle
  if transcript.ends then handle.close else handle

structure Patience where
  timeout : Option Nat
  interrupted : Bool

/-- How many steps a worker takes in a millisecond, as far as time limits go. -/
def stepsPerMillisecond : Nat := 1000

/-- The number of steps that a caller waits for, no more than `budget`. -/
def Patience.budget (patience : Patience) (budget : Nat) : Nat :=
  if patience.interrupted then 0
  else
    match patience.timeout with
    | some timeout => min budget (timeout * stepsPerMillisecond)
    | none => budget

/-- The outcome for a caller: whoever gives up does not care about a broken worker. -/
def settle (patience : Patience) (outcome : Except Error Completion) :
    Except Error Completion :=
  match outcome with
  | .error error =>
      match error.cause with
      | .protocol _ => .error (if patience.interrupted then .interrupted else error)
      | _ => .error error
  | .ok completion => .ok completion

def alreadyFinished : Error := .ofCause (.protocol "run already finished")

/-- Waits for the end of a run: the log messages seen, the outcome, and the handle
afterwards.  The first look comes before anything has arrived.  A worker that does not end
is given up when the time is over; without a limit there is no outcome then. -/
def wait (handle : Handle) (patience : Patience) (transcript : Transcript) :
    List String × Option (Except Error Completion) × Handle :=
  match handle.drain with
  | (texts, some outcome, handle) => (texts, some (settle patience outcome), handle)
  | (texts, none, handle) =>
      if handle.finished then (texts, some (.error alreadyFinished), handle)
      else if patience.interrupted || patience.timeout == some 0 then
        let (error, handle) := handle.abort
        (texts, some (.error error), handle)
      else
        match (handle.receive transcript).drain with
        | (later, some outcome, handle) =>
            (texts ++ later, some (settle patience outcome), handle)
        | (later, none, handle) =>
            if patience.timeout.isSome then
              let (error, handle) := handle.abort
              (texts ++ later, some (.error error), handle)
            else (texts ++ later, none, handle)

end Handle

/-! ## Isolated runs -/

namespace Isolation

def arrival : Except FileFault String → Except Error Message
  | .ok line => Message.decode line
  | .error fault => .error (.ofCause (.io s!"cannot read from worker: {fault.message}"))

def startFailure (fault : FileFault) : Error :=
  .ofCause (.io s!"cannot start worker: {fault.message}")

def request (filename source : String) (board : Board) : String :=
  (Message.start filename source board.toText).encode

def transcript (tree : FileTree) (budget : Nat) (filename source : String) (board : Board) :
    Handle.Transcript :=
  let (messages, ending) := Worker.serve tree budget [.ok (request filename source board)]
  { arrivals := messages.map fun message => Message.decode message.encode
    ends := match ending with
      | .busy => false
      | _ => true }

def run (tree : FileTree) (budget : Nat) (timeout : Option Nat) (filename source : String)
    (board : Board) : List String × Option (Except Error Completion) :=
  let patience : Handle.Patience := ⟨timeout, false⟩
  let words := transcript tree (patience.budget budget) filename source board
  let (texts, outcome, _) := Handle.start.wait patience words
  (texts, outcome)

end Isolation

end StoneBoard
