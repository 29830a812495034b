import StoneBoard.Library
import StoneBoard.Machine

/-!
# Runs

A run of a program from its text: reading, checking, compiling and running it.  Each stage
is announced before it begins, and whoever is told may refuse it.
-/

namespace StoneBoard

inductive Stage where
  | parsing | checking | compiling | running
deriving DecidableEq, Repr

namespace Stage

def all : List Stage := [parsing, checking, compiling, running]

def text : Stage → String
  | parsing => "Parsing"
  | checking => "Performing semantic checks"
  | compiling => "Compiling"
  | running => "Starting program"

end Stage

inductive RunEnd where
  | completed (result : Bindings) (scene : Scene)
  | failed (error : Error)
  | unfinished

structure Job where
  catalogue : Catalogue
  file : String
  source : String
  board : Board
  typecheck : Bool

namespace Job

abbrev Staged := ExceptT Error (StateM (List Stage))

/-- Announces a stage; `refuse` may have an error against it. -/
def announce (refuse : Stage → Option Error) (stage : Stage) : Staged Unit := do
  modify fun begun => begun ++ [stage]
  match refuse stage with
  | some error => throw error
  | none => pure ()

def attempt {α : Type} : Except Error α → Staged α
  | .ok value => pure value
  | .error error => throw error

def settings (job : Job) : Library.Settings := ⟨job.catalogue, job.typecheck⟩

def prepare (job : Job) (refuse : Stage → Option Error) : Staged CompiledModule := do
  announce refuse .parsing
  let _ ← attempt ((Program.ofText job.source).mapError (Library.inEntry job.file job.source))
  announce refuse .checking
  let (analyzed, library) :=
    (Library.analyzeEntry job.settings job.file job.source).run.run Library.empty
  let program ← attempt analyzed
  announce refuse .compiling
  let (compiled, _) :=
    (Library.compileEntry job.settings job.file job.source program).run.run library
  let compiled ← attempt compiled
  announce refuse .running
  return compiled

/-- Adds the line of the program's text to an error in the program's file. -/
def explain (job : Job) (error : Error) : Error :=
  if error.file = some job.file then error.withSource job.source else error

def execute (job : Job) (budget : Nat) (compiled : CompiledModule) : RunEnd :=
  match compiled.run Machine.standardDepth budget (.ofBoard job.board) with
  | some (.ok result, scene) => .completed result scene
  | some (.error error, _) => .failed (job.explain error)
  | none => .unfinished

def run (job : Job) (refuse : Stage → Option Error) (budget : Nat) : List Stage × RunEnd :=
  match (job.prepare refuse).run.run [] with
  | (.ok compiled, stages) => (stages, job.execute budget compiled)
  | (.error error, stages) => (stages, .failed error)

def permitAll : Stage → Option Error := fun _ => none

/-- The number of steps for runs that should go on until they end: more than any will take. -/
def unlimited : Nat := 4611686018427387904

end Job

end StoneBoard
