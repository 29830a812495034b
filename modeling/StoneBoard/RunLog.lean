import StoneBoard.Board

/-!
# The run log

Every change of the board is recorded in order, and nothing is ever removed.  A function body
opens a mark; when the function returns, the changes since its mark have been undone on the board
and are marked as such in the log.
-/

namespace StoneBoard

structure BoardEvent where
  id : Nat
  routine : String
  action : String
  head : Place
  /-- whether an enclosing function has returned since -/
  undone : Bool
deriving DecidableEq, Repr, Inhabited

namespace BoardEvent

def render (event : BoardEvent) : String :=
  s!"[#{event.id}] {event.action} in {event.routine} -> " ++
    s!"head ({event.head.column}, {event.head.row})" ++
    (if event.undone then " (undone)" else "")

def undo (event : BoardEvent) : BoardEvent :=
  { event with undone := true }

end BoardEvent

/-- The recorded changes, and the length of the log at each open mark, latest first. -/
structure RunLog where
  events : Array BoardEvent
  marks : List Nat
deriving DecidableEq, Repr, Inhabited

namespace RunLog

def empty : RunLog := ⟨#[], []⟩

def size (log : RunLog) : Nat := log.events.size

def record (log : RunLog) (routine action : String) (head : Place) : RunLog :=
  let event := ⟨log.events.size, routine, action, head, false⟩
  { log with events := log.events.push event }

def openMark (log : RunLog) : RunLog :=
  { log with marks := log.events.size :: log.marks }

def undoFrom (events : Array BoardEvent) (index : Nat) : Array BoardEvent :=
  if index < events.size then
    undoFrom (events.modify index BoardEvent.undo) (index + 1)
  else events
termination_by events.size - index
decreasing_by simp only [Array.size_modify]; omega

/-- Closes the latest mark, if there is one: the events since are undone. -/
def closeMark (log : RunLog) : RunLog :=
  match log.marks with
  | [] => log
  | mark :: earlier => ⟨undoFrom log.events mark, earlier⟩

def effective (log : RunLog) : List BoardEvent :=
  log.events.toList.filter fun event => !event.undone

def renderLines (log : RunLog) : List String :=
  log.events.toList.map BoardEvent.render

def render (log : RunLog) : String :=
  String.join (log.renderLines.map fun line => line ++ "\n")

end RunLog

end StoneBoard
