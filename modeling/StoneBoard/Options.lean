import StoneBoard.Board.Text
import StoneBoard.Error
import StoneBoard.FileTree

/-!
# Options

What can be asked of a run, and how a caller talks to its workers.
-/

namespace StoneBoard

structure RunOptions where
  startFile : Option String := none
  finalFile : Option String := none
  size : Option (Nat × Nat) := none
  typecheck : Bool := true
  trace : Bool := false
  isolated : Bool := false
  /-- the time limit of an isolated run in milliseconds -/
  timeout : Option Nat := none
deriving DecidableEq, Repr

namespace RunOptions

/-- The board on which a run starts: the one in the file, or an empty one. -/
def initialBoard (options : RunOptions) (tree : FileTree) : Except Error Board :=
  match options.startFile, options.size with
  | some path, _ =>
      match tree.readText path with
      | .error fault => .error (.ofCause (.io s!"{path}: {fault.message}"))
      | .ok text =>
          (Board.ofText text).mapError fun fault =>
            (Error.ofCause (.boardFormat fault.message)).inFile path
  | none, some (width, height) => .ok (.blank width height)
  | none, none => .ok .standard

end RunOptions

structure CallerSettings where
  tick : Nat
  workerArguments : List String
deriving DecidableEq, Repr

namespace CallerSettings

def workerCommand : String := "worker"

def standard : CallerSettings := ⟨50, [workerCommand]⟩

def readTick? (text : String) : Option Nat :=
  match Text.readCount? (Text.trim text) with
  | some 0 => none
  | tick => tick

/-- The settings for a tick that is wished for; a wish that is no tick is ignored. -/
def ofWish (wish : Option String) : CallerSettings :=
  match wish.bind readTick? with
  | some tick => { standard with tick }
  | none => standard

end CallerSettings

end StoneBoard
