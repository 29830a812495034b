import StoneBoard.Execution
import StoneBoard.Text.Typing

/-!
# The shell

A dialogue about one board.  Every line is a command: it may show the board, replace it, or
run a program on it in a worker.  The board only changes if the command succeeds.
-/

namespace StoneBoard

structure Shell where
  board : Board
  timeout : Option Nat

namespace Shell

def version : String := "0.3.0"

def start : Shell := ⟨.standard, none⟩

def banner : String :=
  "Gobstones " ++ version ++ " - a board language\n" ++
  "Type exit to exit, help for help\n\n"

def prompt : String := "gbs> "

def farewell : String := "Goodbye!\n"

def helpText : String :=
  "Shell Commands:\n" ++
  "  run FILE       Run a program on the current board\n" ++
  "  load FILE      Load a board from a GBB file\n" ++
  "  board          Show the current board\n" ++
  "  size W H       Start over with an empty W x H board\n" ++
  "  timeout MS     Abort runs after MS milliseconds (0 disables)\n" ++
  "  Ctrl-C         Abort the current run\n" ++
  "  exit, quit     Exit the shell\n"

inductive Request where
  | exit
  | help
  | board
  | load (file : String)
  | size (width height : String)
  | timeout (milliseconds : String)
  | run (file : String)
  | unknown
deriving DecidableEq, Repr

def Request.ofWords : List String → Request
  | ["exit"] => .exit
  | ["quit"] => .exit
  | ["help"] => .help
  | ["board"] => .board
  | ["load", file] => .load file
  | ["size", width, height] => .size width height
  | ["timeout", milliseconds] => .timeout milliseconds
  | ["run", file] => .run file
  | _ => .unknown

inductive Verdict where
  | goesOn
  | ended
  | busy
  | broken
deriving DecidableEq, Repr

structure Reply where
  effects : List Effect
  shell : Shell
  verdict : Verdict := .goesOn

def objection (text : String) : Effect := Execution.complaint (.ofCause (.io text))

def runFile (shell : Shell) (tree : FileTree) (budget : Nat) (file : String) : Reply :=
  match Execution.readSource tree file with
  | .error error => { effects := [Execution.complaint error], shell }
  | .ok source =>
      let (texts, outcome) := Isolation.run tree budget shell.timeout file source shell.board
      let progress := texts.map fun text => Effect.print (Effect.line text)
      match outcome with
      | none => { effects := progress, shell, verdict := .busy }
      | some (.error error) => { effects := progress ++ [Execution.complaint error], shell }
      | some (.ok completion) =>
          { effects := progress ++ Execution.showCompletion completion
            shell := { shell with board := completion.board } }

def perform (shell : Shell) (tree : FileTree) (budget : Nat) : Request → Reply
  | .exit => { effects := [.print farewell], shell, verdict := .ended }
  | .help => { effects := [.print helpText], shell }
  | .board => { effects := [Execution.showBoard shell.board], shell }
  | .load file =>
      match Execution.readBoard tree file with
      | .ok board => { effects := [Execution.showBoard board], shell := { shell with board } }
      | .error error => { effects := [Execution.complaint error], shell }
  | .size width height =>
      match Text.readCount? width, Text.readCount? height with
      | some width, some height =>
          { effects := [], shell := { shell with board := .blank width height } }
      | _, _ => { effects := [objection "size expects two numbers"], shell }
  | .timeout milliseconds =>
      match Text.readCount? milliseconds with
      | some 0 => { effects := [], shell := { shell with timeout := none } }
      | some limit => { effects := [], shell := { shell with timeout := some limit } }
      | none => { effects := [objection "timeout expects milliseconds"], shell }
  | .run file => shell.runFile tree budget file
  | .unknown => { effects := [objection "unknown command, try 'help'"], shell }

def breakdownText : String := Effect.line "a character cannot be taken back in part"

def respond (shell : Shell) (tree : FileTree) (budget : Nat) (line : String) : Reply :=
  match (Text.corrected line).map Text.words with
  | none => { effects := [.complain breakdownText], shell, verdict := .broken }
  | some [] => { effects := [], shell }
  | some words => shell.perform tree budget (.ofWords words)

def unreadable (fault : FileFault) : Effect :=
  .complain ("error: Io(Error \x7b kind: InvalidData, message: \"" ++ fault.message ++
    "\" \x7d)\n")

def converse (tree : FileTree) (budget : Nat) (shell : Shell) :
    List (Except FileFault String) → Reply
  | [] => { effects := [.print prompt, .print farewell], shell, verdict := .ended }
  | .error fault :: _ =>
      { effects := [.print prompt, unreadable fault], shell, verdict := .ended }
  | .ok line :: rest =>
      let reply := shell.respond tree budget line
      match reply.verdict with
      | .goesOn =>
          let later := converse tree budget reply.shell rest
          { later with effects := .print prompt :: reply.effects ++ later.effects }
      | _ => { reply with effects := .print prompt :: reply.effects }

end Shell

end StoneBoard
