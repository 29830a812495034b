import StoneBoard.Options

/-!
# Commands

What the command line can ask for, and how its arguments are read.  Arguments are read
from left to right; one that makes no sense, or a request for help, ends the reading.
-/

namespace StoneBoard

inductive CommandName where
  | run | asm | check | board | shell | worker
deriving DecidableEq, Repr

namespace CommandName

def text : CommandName → String
  | run => "run"
  | asm => "asm"
  | check => "check"
  | board => "board"
  | shell => "shell"
  | worker => CallerSettings.workerCommand

def all : List CommandName := [run, asm, check, board, shell, worker]

def ofText? (text : String) : Option CommandName :=
  all.find? fun name => name.text == text

def takesFile : CommandName → Bool
  | shell | worker => false
  | _ => true

end CommandName

inductive Topic where
  | program
  | command (name : CommandName)
  | help
deriving DecidableEq, Repr

inductive Command where
  | run (file : String) (options : RunOptions)
  | listing (file : String)
  | check (file : String)
  | board (file : String)
  | shell
  | worker
  | version
  | help (topic : Topic)
deriving DecidableEq, Repr

namespace Command

inductive Halt where
  | help (topic : Topic)
  | misuse

inductive Flag where
  | noTypecheck | trace | isolated | help

inductive Setting where
  | startFile | finalFile | timeout

inductive OptionKind where
  | flag (flag : Flag)
  | setting (setting : Setting)
  | size

/-- The options of a command; only runs have some of their own. -/
def optionKind? (command : CommandName) (name : String) : Option OptionKind :=
  if name = "help" then some (.flag .help)
  else if command = .run then
    match name with
    | "no-typecheck" => some (.flag .noTypecheck)
    | "trace" => some (.flag .trace)
    | "isolated" => some (.flag .isolated)
    | "from" => some (.setting .startFile)
    | "to" => some (.setting .finalFile)
    | "timeout" => some (.setting .timeout)
    | "size" => some .size
    | _ => none
  else none

inductive Argument where
  | divider
  | long (name : String) (value : Option String)
  | short (letters : List Char)
  | plain (text : String)

namespace Argument

/-- The name of an option, and its value if there is an equals sign. -/
def splitOption (characters : List Char) : String × Option String :=
  let name := characters.takeWhile fun character => character != '='
  match characters.drop name.length with
  | _ :: value => (String.ofList name, some (String.ofList value))
  | [] => (String.ofList name, none)

def ofText (text : String) : Argument :=
  match text.toList with
  | ['-', '-'] => .divider
  | '-' :: '-' :: characters =>
      let (name, value) := splitOption characters
      .long name value
  | '-' :: letter :: letters => .short (letter :: letters)
  | _ => .plain text

def value? (text : String) : Option String :=
  match ofText text with
  | .plain text => some text
  | _ => none

end Argument

structure Draft where
  file : Option String := none
  options : RunOptions := {}

namespace Draft

def setFile (draft : Draft) (command : CommandName) (path : String) : Except Halt Draft :=
  if command.takesFile && draft.file.isNone && !path.isEmpty then
    .ok { draft with file := some path }
  else .error .misuse

/-- Sets an option without a value; no option comes twice. -/
def setFlag (draft : Draft) (command : CommandName) : Flag → Except Halt Draft
  | .noTypecheck =>
      if draft.options.typecheck then
        .ok { draft with options := { draft.options with typecheck := false } }
      else .error .misuse
  | .trace =>
      if draft.options.trace then .error .misuse
      else .ok { draft with options := { draft.options with trace := true } }
  | .isolated =>
      if draft.options.isolated then .error .misuse
      else .ok { draft with options := { draft.options with isolated := true } }
  | .help => .error (.help (.command command))

def setValue (draft : Draft) (value : String) : Setting → Except Halt Draft
  | .startFile =>
      if draft.options.startFile.isSome || value.isEmpty then .error .misuse
      else .ok { draft with options := { draft.options with startFile := some value } }
  | .finalFile =>
      if draft.options.finalFile.isSome || value.isEmpty then .error .misuse
      else .ok { draft with options := { draft.options with finalFile := some value } }
  | .timeout =>
      match draft.options.timeout, Text.readCount? value with
      | none, some timeout =>
          .ok { draft with options := { draft.options with timeout := some timeout } }
      | _, _ => .error .misuse

def setSize (draft : Draft) (width height : String) : Except Halt Draft :=
  match draft.options.size, Text.readCount? width, Text.readCount? height with
  | none, some width, some height =>
      .ok { draft with options := { draft.options with size := some (width, height) } }
  | _, _, _ => .error .misuse

def read (command : CommandName) (draft : Draft) : List String → Except Halt Draft
  | [] => .ok draft
  | text :: rest =>
      match Argument.ofText text with
      | .divider => rest.foldlM (fun draft path => draft.setFile command path) draft
      | .plain path => do read command (← draft.setFile command path) rest
      | .short ('h' :: _) => .error (.help (.command command))
      | .short _ => .error .misuse
      | .long name attached =>
          match optionKind? command name with
          | none => .error .misuse
          | some (.flag flag) =>
              match attached with
              | none => do read command (← draft.setFlag command flag) rest
              | some _ => .error .misuse
          | some (.setting setting) =>
              match attached with
              | some value => do read command (← draft.setValue value setting) rest
              | none =>
                  match rest with
                  | [] => .error .misuse
                  | next :: others =>
                      match Argument.value? next with
                      | some value => do read command (← draft.setValue value setting) others
                      | none => .error .misuse
          | some .size =>
              match rest with
              | first :: second :: others =>
                  match attached, Argument.value? first, Argument.value? second with
                  | none, some width, some height => do
                      read command (← draft.setSize width height) others
                  | _, _, _ => .error .misuse
              | _ => .error .misuse

def finish (draft : Draft) : CommandName → Except Halt Command
  | .shell => .ok .shell
  | .worker => .ok .worker
  | command =>
      match draft.file with
      | none => .error .misuse
      | some file =>
          match command with
          | .run =>
              if draft.options.timeout.isSome && !draft.options.isolated then .error .misuse
              else .ok (.run file draft.options)
          | .asm => .ok (.listing file)
          | .check => .ok (.check file)
          | _ => .ok (.board file)

end Draft

def readTopic : List String → Except Halt Command
  | [] => .error (.help .program)
  | ["help"] => .error (.help .help)
  | [name] =>
      match CommandName.ofText? name with
      | some command => .error (.help (.command command))
      | none => .error .misuse
  | _ => .error .misuse

def read : List String → Except Halt Command
  | [] => .error .misuse
  | text :: rest =>
      match Argument.ofText text with
      | .long "help" none => .error (.help .program)
      | .short ('h' :: _) => .error (.help .program)
      | .long "version" none => .ok .version
      | .short ('V' :: _) => .ok .version
      | .plain name =>
          match CommandName.ofText? name with
          | some command => do (← Draft.read command {} rest).finish command
          | none => if name = "help" then readTopic rest else .error .misuse
      | _ => .error .misuse

def ofArguments? (arguments : List String) : Option Command :=
  match read arguments with
  | .ok command => some command
  | .error (.help topic) => some (.help topic)
  | .error .misuse => none

end Command

end StoneBoard
