import StoneBoard.Builtin
import StoneBoard.Code
import StoneBoard.RunLog
import StoneBoard.Stack

/-!
# The machine

Runs compiled code on a board.  All calls share one operand stack, and each has its own variables.
-/

namespace StoneBoard

/-- What a run changes for good: the board, and the log of its changes. -/
structure Scene where
  board : Board
  log : RunLog
deriving DecidableEq, Repr

namespace Scene

def ofBoard (board : Board) : Scene := ⟨board, .empty⟩

end Scene

structure Frame where
  /-- the module of the routine, in which names are looked up -/
  home : CompiledModule
  routine : Routine
  offset : Nat
  locals : Bindings
  /-- the height of the stack when the call began -/
  base : Nat

namespace Frame

def span? (frame : Frame) : Option Span := frame.routine.spanAt? (frame.offset - 1)

def traceLine (frame : Frame) : String :=
  let line := match frame.span? with
    | some span => span.line
    | none => 0
  s!"\n  {frame.routine.kind.name} {frame.home.qualified frame.routine.name} at line {line}"

/-- The variables of the program, in the order of their names, without the hidden ones. -/
def visibleVariables (frame : Frame) : Bindings :=
  Table.sorted (frame.locals.filter fun entry => entry.1.toList.head? != some '_')

def traceVariables (frame : Frame) : String :=
  let visible := frame.visibleVariables
  if visible.isEmpty then ""
  else
    let lines := visible.map fun (name, value) => s!"\n  {name} = {value.render}"
    "\nLocals:" ++ String.join lines

def setVariable (frame : Frame) (name : String) (value : Value) : Frame :=
  { frame with locals := Table.insert frame.locals name value }

def eraseVariable (frame : Frame) (name : String) : Frame :=
  { frame with locals := Table.erase frame.locals name }

end Frame

/-- A run in the middle: the innermost call and those around it. -/
structure Machine where
  frame : Frame
  callers : List Frame
  depth : Nat
  stack : Stack
  scene : Scene

namespace Machine

/-! ## Errors -/

def frames (machine : Machine) : List Frame := machine.frame :: machine.callers

/-- The calls under way, and the variables of the innermost one. -/
def backtrace (machine : Machine) : String :=
  "At:" ++ String.join (machine.frames.map Frame.traceLine) ++ machine.frame.traceVariables

/-- The frame that errors are attributed to: the innermost one of the program that was
started. -/
def blamedFrame (machine : Machine) : Frame :=
  (machine.frames.find? fun frame => frame.home.qualifier.isEmpty).getD machine.frame

def error (machine : Machine) (cause : Cause) : Error where
  cause := cause
  span := machine.blamedFrame.span?
  file := some machine.blamedFrame.home.file
  backtrace := some machine.backtrace

/-! ## One instruction -/

inductive Outcome where
  | next (machine : Machine)
  | done (result : Bindings) (scene : Scene)
  | fault (error : Error) (scene : Scene)

def fail (machine : Machine) (cause : Cause) : Outcome :=
  .fault (machine.error cause) machine.scene

def internalFault (machine : Machine) (message : String) : Outcome :=
  machine.fail (.internal message)

def withTop (machine : Machine) (continuation : Value → Machine → Outcome) : Outcome :=
  match machine.stack.pop? with
  | some (value, stack) => continuation value { machine with stack }
  | none => machine.internalFault "stack underflow"

def withValues (machine : Machine) (count : Nat)
    (continuation : List Value → Machine → Outcome) : Outcome :=
  match machine.stack.popMany? count with
  | some (values, stack) => continuation values { machine with stack }
  | none => machine.internalFault "stack underflow"

def push (machine : Machine) (value : Value) : Machine :=
  { machine with stack := machine.stack.push value }

def jump (machine : Machine) (label : Nat) : Outcome :=
  match machine.frame.routine.target? label with
  | some offset => .next { machine with frame := { machine.frame with offset } }
  | none => machine.internalFault s!"unresolved label {labelName label}"

def enterRoutine (machine : Machine) (home : CompiledModule) (routine : Routine)
    (arguments : List Value) : Machine :=
  let locals := Table.insertAll [] (routine.parameters.zip arguments)
  { machine with
    frame := { home, routine, offset := 0, locals, base := machine.stack.height }
    callers := machine.frame :: machine.callers
    depth := machine.depth + 1 }

def callRoutine (maxDepth : Nat) (machine : Machine) (name : String) (argumentCount : Nat)
    (home : CompiledModule) (routine : Routine) : Outcome :=
  let expected := routine.parameters.length
  if expected ≠ argumentCount then machine.fail (.wrongArity name expected argumentCount)
  else if maxDepth ≤ machine.depth then machine.fail (.stackOverflow maxDepth)
  else machine.withValues argumentCount fun arguments machine =>
    .next (machine.enterRoutine home routine arguments)

def record (machine : Machine) (name : String) (arguments : List Value) (board : Board) :
    Machine :=
  let texts := String.intercalate ", " (arguments.map Value.render)
  let log := machine.scene.log.record machine.frame.routine.name s!"{name}({texts})" board.head
  { machine with scene := ⟨board, log⟩ }

def callBuiltin (machine : Machine) (name : String) (argumentCount : Nat)
    (builtin : Builtin) : Outcome :=
  if builtin.arity ≠ argumentCount then
    machine.fail (.wrongArity name builtin.arity argumentCount)
  else machine.withValues argumentCount fun arguments machine =>
    match builtin.run arguments machine.scene.board with
    | .error cause => machine.fail cause
    | .ok (board, none) => .next (machine.record name arguments board)
    | .ok (_, some value) => .next (machine.push value)

/-- Calls what a name stands for: a routine of the same module, an imported one, or a
builtin. -/
def call (maxDepth : Nat) (machine : Machine) (name : String) (argumentCount : Nat) :
    Outcome :=
  match machine.frame.home.exported? name with
  | some (home, routine) => machine.callRoutine maxDepth name argumentCount home routine
  | none =>
      match Builtin.ofName? name with
      | some builtin => machine.callBuiltin name argumentCount builtin
      | none => machine.fail (.undefinedRoutine name)

/-- Ends the innermost call: gives the values to the caller, or the named ones to whoever
started the program. -/
def finish (machine : Machine) (toCaller : List Value) (result : Bindings) : Outcome :=
  match machine.callers with
  | [] => .done result machine.scene
  | caller :: callers =>
      let stack := (machine.stack.truncate machine.frame.base).pushMany toCaller
      .next { machine with frame := caller, callers, depth := machine.depth - 1, stack }

def execute (maxDepth : Nat) (machine : Machine) : Instruction → Outcome
  | .pushConstant value => .next (machine.push value)
  | .pushVariable name =>
      match Table.get? machine.frame.locals name with
      | some value => .next (machine.push value)
      | none => machine.fail (.uninitializedVariable name)
  | .assign name => machine.withTop fun value machine =>
      .next { machine with frame := machine.frame.setVariable name value }
  | .deleteVariable name => .next { machine with frame := machine.frame.eraseVariable name }
  | .label _ => .next machine
  | .jump target => machine.jump target
  | .jumpIfFalse target => machine.withTop fun value machine =>
      match value with
      | .bool true => .next machine
      | .bool false => machine.jump target
      | _ => machine.fail .conditionNotBoolean
  | .jumpIfNotIn values target => machine.withTop fun value machine =>
      if values.contains value then .next machine else machine.jump target
  | .call routine argumentCount => machine.call maxDepth routine argumentCount
  | .boom message => machine.fail (.boom message)
  | .enter =>
      .next { machine with scene := ⟨machine.scene.board.save, machine.scene.log.openMark⟩ }
  | .leave =>
      .next { machine with
        scene := ⟨machine.scene.board.restore, machine.scene.log.closeMark⟩ }
  | .returnValues count => machine.withValues count fun values machine =>
      machine.finish values []
  | .returnNamed count names => machine.withValues count fun values machine =>
      machine.finish [] ((names.map plainName).zip values)

def advance (machine : Machine) : Machine :=
  { machine with frame := { machine.frame with offset := machine.frame.offset + 1 } }

def step (maxDepth : Nat) (machine : Machine) : Outcome :=
  let { routine, offset, .. } := machine.frame
  match routine.code[offset]? with
  | some (instruction, _) => machine.advance.execute maxDepth instruction
  | none => machine.advance.internalFault s!"routine {routine.name} has no return"

/-! ## Runs -/

/-- Takes steps until the program ends or fails, but no more than `budget`; a run that is
not over then has no outcome. -/
def run (maxDepth : Nat) : (budget : Nat) → Machine → Option (Except Error Bindings × Scene)
  | 0, _ => none
  | budget + 1, machine =>
      match machine.step maxDepth with
      | .next machine => run maxDepth budget machine
      | .done result scene => some (.ok result, scene)
      | .fault error scene => some (.error error, scene)

def start (program : CompiledModule) (main : Routine) (scene : Scene) : Machine where
  frame := { home := program, routine := main, offset := 0, locals := [], base := 0 }
  callers := []
  depth := 1
  stack := .empty
  scene := scene

def standardDepth : Nat := 65536

end Machine

def CompiledModule.run (program : CompiledModule) (maxDepth budget : Nat) (scene : Scene) :
    Option (Except Error Bindings × Scene) :=
  match program.routines.get? "Main" with
  | some main => (Machine.start program main scene).run maxDepth budget
  | none => some (.error ((Error.ofCause .noMain).inFile program.file), scene)

end StoneBoard
