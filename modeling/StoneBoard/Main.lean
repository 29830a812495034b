import StoneBoard.Command.Performance

/-!
# The program

Brings the files that a command needs from the disk, carries out the command, and lets its
effects happen.
-/

namespace StoneBoard.Main

def look (tree : FileTree) (path : String) : IO FileTree := do
  let place := FileTree.placeOf path
  try
    let contents ← IO.FS.readBinFile path
    return tree.put place contents
  catch
    | .inappropriateType _ 21 _ => return tree.addDirectory place
    | _ => return tree

/-- What the disk has at a path and on the way to it. -/
partial def explore (tree : FileTree) (path : String) : IO FileTree := do
  match Path.parent? path with
  | some outer => look (← explore tree outer) path
  | none => look tree path

def wantedFiles (file source : String) : List String :=
  match Program.ofText source with
  | .ok program =>
      (Library.preludeName :: program.imports.map fun declaration => declaration.source).map
        fun name => Path.join (Path.directory file) (name ++ moduleExtension)
  | .error _ => []

/-- Brings files and, if they hold programs, the modules that those want. -/
partial def bring (seen : List String) (tree : FileTree) : List String → IO FileTree
  | [] => return tree
  | file :: rest => do
      if seen.contains file then bring seen tree rest
      else
        let tree ← explore tree file
        match tree.readText file with
        | .ok source => bring (file :: seen) tree (wantedFiles file source ++ rest)
        | .error _ => bring (file :: seen) tree rest

def bringFor (line : String) : IO FileTree := do
  match Message.decode? line with
  | some (.start filename source _) => bring [] .empty (wantedFiles filename source)
  | _ => return .empty

def enact : Effect → IO Unit
  | .print text => do
      let output ← IO.getStdout
      output.putStr text
      output.flush
  | .complain text => do
      let output ← IO.getStderr
      output.putStr text
      output.flush
  | .write path text => IO.FS.writeFile path text

/-- A line of the standard input without its end; none at the end of the input. -/
def nextLine : IO (Option (Except FileFault String)) := do
  let input ← IO.getStdin
  try
    let line ← input.getLine
    return (Text.streamLines line.toUTF8).head?
  catch _ => return some (.error .notText)

partial def work : IO Nat := do
  match ← nextLine with
  | none => return Performance.success
  | some line =>
      let tree ← bringFor (line.toOption.getD "")
      match Worker.react tree Job.unlimited line with
      | .ignore => work
      | .stop => return Performance.success
      | .refuse error =>
          enact (Execution.complaint error)
          return Performance.failure
      | .reply messages _ =>
          for message in messages do
            enact (.print (Effect.line message.encode))
          work

partial def converse (shell : Shell) : IO Nat := do
  enact (.print Shell.prompt)
  match ← nextLine with
  | none =>
      enact (.print Shell.farewell)
      return Performance.success
  | some (.error fault) =>
      enact (Shell.unreadable fault)
      return Performance.success
  | some (.ok line) =>
      let tree ← bring [] .empty (Text.words ((Text.corrected line).getD ""))
      let reply := shell.respond tree Job.unlimited line
      reply.effects.forM enact
      match reply.verdict with
      | .goesOn => converse reply.shell
      | verdict => return (Performance.exitCodeOf verdict).getD Performance.failure

def carryOut (arguments : List String) : IO Nat := do
  match Command.ofArguments? arguments with
  | some .worker => work
  | some .shell =>
      enact (.print Shell.banner)
      converse .start
  | _ =>
      let tree ← bring [] .empty arguments
      let performance := Command.performArguments tree Job.unlimited .empty arguments
      performance.effects.forM enact
      return performance.exitCode.getD Performance.failure

end StoneBoard.Main

def main (arguments : List String) : IO UInt32 := do
  return (← StoneBoard.Main.carryOut arguments).toUInt32
