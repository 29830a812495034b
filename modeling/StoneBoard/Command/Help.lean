import StoneBoard.Command

/-!
# Help

The texts about the command line.
-/

namespace StoneBoard.Command

def purpose : CommandName → String
  | .run => "Run a program"
  | .asm => "Show the compiled bytecode"
  | .check => "Parse, check and annotate a program"
  | .board => "Pretty-print a board"
  | .shell => "Interactive shell"
  | .worker => "Worker end of the isolated harness"

def helpPurpose : String := "Print this message or the help of the given subcommand(s)"

def overview : String :=
  "Gobstones compiler and virtual machine\n\n" ++
  "Usage: gobstones <COMMAND>\n\n" ++
  "Commands:\n" ++
  "  run    " ++ purpose .run ++ "\n" ++
  "  asm    " ++ purpose .asm ++ "\n" ++
  "  check  " ++ purpose .check ++ "\n" ++
  "  board  " ++ purpose .board ++ "\n" ++
  "  shell  " ++ purpose .shell ++ "\n" ++
  "  help   " ++ helpPurpose ++ "\n\n" ++
  "Options:\n" ++
  "  -h, --help     Print help\n" ++
  "  -V, --version  Print version\n"

def runOptions : String :=
  "      --from <FROM>   Initial board (GBB file)\n" ++
  "      --to <TO>       Write the final board here\n" ++
  "      --size <W> <H>  Size of an empty initial board\n" ++
  "      --no-typecheck  Skip type annotation; polymorphic calls dispatch at run time\n" ++
  "      --trace         Print every board mutation\n" ++
  "      --isolated      Run in a separate worker process\n" ++
  "      --timeout <MS>  Abort an isolated run after this many milliseconds\n" ++
  "  -h, --help          Print help\n"

def usage : CommandName → String
  | .run => "run [OPTIONS] <FILE>"
  | .shell => "shell"
  | .worker => "worker"
  | command => command.text ++ " <FILE>"

def helpOn (command : CommandName) : String :=
  purpose command ++ "\n\n" ++
  "Usage: gobstones " ++ usage command ++ "\n\n" ++
  (if command.takesFile then "Arguments:\n  <FILE>  \n\n" else "") ++
  "Options:\n" ++
  (if command = .run then runOptions else "  -h, --help  Print help\n")

def helpOnHelp : String :=
  helpPurpose ++ "\n\n" ++
  "Usage: gobstones help [COMMAND]...\n\n" ++
  "Arguments:\n  [COMMAND]...  Print help for the subcommand(s)\n"

def helpText : Topic → String
  | .program => overview
  | .command name => helpOn name
  | .help => helpOnHelp

def misuseText : String :=
  "error: unexpected arguments\n\n" ++
  "Usage: gobstones <COMMAND>\n\n" ++
  "For more information, try '--help'.\n"

end StoneBoard.Command
