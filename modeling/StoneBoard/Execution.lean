import StoneBoard.Board.Picture
import StoneBoard.Caller
import StoneBoard.Effect
import StoneBoard.Options

/-!
# Execution of files

Running the program in a file, here or in a worker, with the effects of the run.
-/

namespace StoneBoard

namespace Execution

def readSource (tree : FileTree) (path : String) : Except Error String :=
  (tree.readText path).mapError fun fault =>
    .ofCause (.io s!"cannot read file '{path}': {fault.message}")

def readBoard (tree : FileTree) (path : String) : Except Error Board := do
  let text ← readSource tree path
  (Board.ofText text).mapError fun fault =>
    (Error.ofCause (.boardFormat fault.message)).inFile path

def complaint (error : Error) : Effect := .complain (Effect.line error.render)

def showBoard (board : Board) : Effect := .print board.picture

def showCompletion (completion : Completion) : List Effect :=
  showBoard completion.board ::
    completion.result.map fun (name, value) =>
      .print (Effect.line (name ++ " -> " ++ value.render))

structure Trial where
  effects : List Effect
  outcome : Option (Except Error Completion)

def runHere (tree : FileTree) (budget : Nat) (options : RunOptions) (file source : String)
    (board : Board) : Trial :=
  let job : Job :=
    { catalogue := .besides tree file, file, source, board, typecheck := options.typecheck }
  match (job.run Job.permitAll budget).2 with
  | .completed result scene =>
      { effects := if options.trace then [.print scene.log.render] else []
        outcome := some (.ok ⟨scene.board, result⟩) }
  | .failed error => ⟨[], some (.error error)⟩
  | .unfinished => ⟨[], none⟩

def traceWarning : String := "--trace is not available for isolated runs"

/-- Runs a program in a worker, which neither traces it nor knows of other options. -/
def runIsolated (tree : FileTree) (budget : Nat) (options : RunOptions)
    (file source : String) (board : Board) : Trial :=
  let warnings := if options.trace then [.complain (Effect.line traceWarning)] else []
  let (texts, outcome) := Isolation.run tree budget options.timeout file source board
  { effects := warnings ++ texts.map fun text => .complain (Effect.line text)
    outcome }

def runSource (tree : FileTree) (budget : Nat) (options : RunOptions) (file source : String)
    (board : Board) : Trial :=
  if options.isolated then runIsolated tree budget options file source board
  else runHere tree budget options file source board

def writeBoard (tree : FileTree) (board : Board) (path : String) : Effect × Option Error :=
  match tree.writable path with
  | .ok _ => (.write path board.toText, none)
  | .error fault =>
      let error := Error.ofCause (.io s!"cannot write '{path}': {fault.message}")
      (complaint error, some error)

def deliver (tree : FileTree) (options : RunOptions) (completion : Completion) :
    List Effect × Option Error :=
  match options.finalFile with
  | none => (showCompletion completion, none)
  | some path =>
      let (effect, failure) := writeBoard tree completion.board path
      (showCompletion completion ++ [effect], failure)

end Execution

end StoneBoard
