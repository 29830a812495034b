import StoneBoard.Code.Listing
import StoneBoard.Command.Help
import StoneBoard.Shell

/-!
# Performing commands

The effects of a command, given the files and the standard input, and its exit code.
-/

namespace StoneBoard

structure Performance where
  effects : List Effect
  exitCode : Option Nat

namespace Performance

def success : Nat := 0

def failure : Nat := 1

def misuse : Nat := 2

def breakdown : Nat := 101

def exitCodeOf : Shell.Verdict → Option Nat
  | .busy => none
  | .broken => some breakdown
  | _ => some success

def printing (text : String) : Performance := ⟨[.print text], some success⟩

def failing (effects : List Effect) (error : Error) : Performance :=
  ⟨effects ++ [Execution.complaint error], some failure⟩

def ofText : Except Error String → Performance
  | .ok text => printing text
  | .error error => failing [] error

end Performance

namespace Command

def settings (tree : FileTree) (file : String) : Library.Settings :=
  ⟨.besides tree file, true⟩

def listingOf (tree : FileTree) (file : String) : Except Error String := do
  let source ← Execution.readSource tree file
  let (compiled, _) :=
    (Library.loadEntry (settings tree file) file source).run.run Library.empty
  return (← compiled).listing

def approvalOf (tree : FileTree) (file : String) : Except Error String := do
  let source ← Execution.readSource tree file
  let (analyzed, _) :=
    (Library.analyzeEntry (settings tree file) file source).run.run Library.empty
  let count := (← analyzed).definitions.length
  return Effect.line s!"ok {file} ({count} definitions)"

def prepareRun (tree : FileTree) (options : RunOptions) (file : String) :
    Except Error (String × Board) := do
  let source ← Execution.readSource tree file
  let initial ← options.initialBoard tree
  return (source, initial)

def performRun (tree : FileTree) (budget : Nat) (options : RunOptions) (file : String) :
    Performance :=
  match prepareRun tree options file with
  | .error error => .failing [] error
  | .ok (source, initial) =>
      let trial := Execution.runSource tree budget options file source initial
      match trial.outcome with
      | none => ⟨trial.effects, none⟩
      | some (.error error) => .failing trial.effects error
      | some (.ok completion) =>
          let (effects, fault) := Execution.deliver tree options completion
          ⟨trial.effects ++ effects,
            some (if fault.isSome then Performance.failure else Performance.success)⟩

def performWorker (tree : FileTree) (budget : Nat) (input : ByteArray) : Performance :=
  let (messages, ending) := Worker.serve tree budget (Text.streamLines input)
  let replies := messages.map fun message => Effect.print (Effect.line message.encode)
  match ending with
  | .stopped => ⟨replies, some Performance.success⟩
  | .failed error => .failing replies error
  | .busy => ⟨replies, none⟩

def performShell (tree : FileTree) (budget : Nat) (input : ByteArray) : Performance :=
  let reply := Shell.converse tree budget .start (Text.streamLines input)
  { effects := .print Shell.banner :: reply.effects
    exitCode := Performance.exitCodeOf reply.verdict }

def perform (tree : FileTree) (budget : Nat) (input : ByteArray) : Command → Performance
  | .run file options => performRun tree budget options file
  | .listing file => .ofText (listingOf tree file)
  | .check file => .ofText (approvalOf tree file)
  | .board file => .ofText ((Execution.readBoard tree file).map Board.picture)
  | .shell => performShell tree budget input
  | .worker => performWorker tree budget input
  | .version => .printing (Effect.line ("gobstones " ++ Shell.version))
  | .help topic => .printing (helpText topic)

def performArguments (tree : FileTree) (budget : Nat) (input : ByteArray)
    (arguments : List String) : Performance :=
  match ofArguments? arguments with
  | some command => perform tree budget input command
  | none => ⟨[.complain misuseText], some Performance.misuse⟩

end Command

end StoneBoard
