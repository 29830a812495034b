import StoneBoard.Board
import StoneBoard.Span
import StoneBoard.Text.Blank
import StoneBoard.Text.Column

/-!
# Errors

A cause says what went wrong, and an error adds where.  Static errors are found before a
program runs, dynamic ones while it runs; a dynamic error carries a backtrace of the
calls that were under way.
-/

namespace StoneBoard

inductive ErrorClass where
  | static | dynamic
deriving DecidableEq, Repr

namespace ErrorClass

def render : ErrorClass → String
  | static => "Static error"
  | dynamic => "Runtime error"

end ErrorClass

inductive Cause where
  -- reading the text
  | unexpectedCharacter (character : Char)
  | unterminatedString
  | unterminatedComment
  | unexpectedToken (token : String)
  | expectedToken (expected found : String)
  -- checking the program
  | semantic (message : String)
  | typeMismatch (expected found : String)
  | unknownRoutine (name : String)
  | moduleNotFound (name : String)
  | recursiveModules (chain : String)
  | inModule (name location : String) (inner : Cause)
  -- boards and files
  | boardFormat (message : String)
  | io (message : String)
  -- running the program
  | argumentType (message : String)
  | incomparableValues (first second : String)
  | divisionByZero
  | negativeExponent
  | emptyList
  | emptyColor (color : Color)
  | stoneOverflow (color : Color)
  | cannotMove (direction : Direction)
  | undefinedRoutine (name : String)
  | uninitializedVariable (name : String)
  | wrongArity (routine : String) (expected found : Nat)
  | conditionNotBoolean
  | noMain
  | stackOverflow (limit : Nat)
  | boom (message : String)
  -- talking to a worker
  | interrupted
  | protocol (message : String)
  | internal (message : String)
deriving DecidableEq, Repr

namespace Cause

def message : Cause → String
  | unexpectedCharacter character =>
      s!"malformed input - unrecognized symbol '{character}'"
  | unterminatedString => "unterminated string"
  | unterminatedComment => "unterminated comment"
  | unexpectedToken token => s!"unexpected {token}"
  | expectedToken expected found => s!"expected {expected}, found {found}"
  | semantic message => message
  | typeMismatch expected found => s!"type mismatch: expected {expected}, found {found}"
  | unknownRoutine name => s!"\"{name}\" is not defined"
  | moduleNotFound name => s!"module {name} cannot be found"
  | recursiveModules chain => s!"recursive modules: {chain}"
  | inModule name location inner =>
      s!"error in module {name} ({location}): {inner.message}"
  | boardFormat message => s!"malformed board: {message}"
  | io message => message
  | argumentType message => message
  | incomparableValues first second =>
      s!"relational operation between values of different types ({first} and {second})"
  | divisionByZero => "division by zero"
  | negativeExponent => "negative exponent"
  | emptyList => "empty list"
  | emptyColor color => s!"cannot take stones of color {color.name}"
  | stoneOverflow color => s!"too many stones of color {color.name}"
  | cannotMove direction => s!"cannot move to {direction.name}"
  | undefinedRoutine name => s!"routine \"{name}\" is not defined"
  | uninitializedVariable name => s!"uninitialized variable: \"{name}\""
  | wrongArity routine expected found =>
      s!"wrong number of arguments for \"{routine}\": " ++
        s!"expected {expected}, received {found}"
  | conditionNotBoolean => "condition should be a boolean"
  | noMain => "program has no Main procedure"
  | stackOverflow limit => s!"too many nested calls (limit {limit})"
  | boom message => s!"self destruction: {message}"
  | interrupted => "execution interrupted by the user"
  | protocol message => s!"worker protocol violation: {message}"
  | internal message => s!"internal error: {message}"

/-- An error of an imported module is of the class of the error inside. -/
def errorClass : Cause → ErrorClass
  | unexpectedCharacter _ | unterminatedString | unterminatedComment
  | unexpectedToken _ | expectedToken _ _ | semantic _ | typeMismatch _ _
  | unknownRoutine _ | moduleNotFound _ | recursiveModules _
  | boardFormat _ | io _ => .static
  | inModule _ _ inner => inner.errorClass
  | _ => .dynamic

def ofBoardFault : BoardFault → Cause
  | .emptyColor color => emptyColor color
  | .cannotMove direction => cannotMove direction
  | .stoneOverflow color => stoneOverflow color

end Cause

structure Error where
  cause : Cause
  span : Option Span := none
  file : Option String := none
  backtrace : Option String := none
  /-- the text of the line where the span starts -/
  sourceLine : Option String := none
deriving DecidableEq, Repr

namespace Error

def ofCause (cause : Cause) : Error := { cause }

def located (cause : Cause) (span : Span) : Error := { cause, span := some span }

def interrupted : Error := ofCause .interrupted

def errorClass (error : Error) : ErrorClass := error.cause.errorClass

/-- Names the file, unless it is known already. -/
def inFile (error : Error) (file : String) : Error :=
  { error with file := some (error.file.getD file) }

def withBacktrace (error : Error) (backtrace : String) : Error :=
  { error with backtrace := some backtrace }

def withSource (error : Error) (source : String) : Error :=
  match error.span with
  | none => error
  | some span =>
      match span.line with
      | 0 => error
      | line + 1 =>
          match (Text.lines source)[line]? with
          | some text => { error with sourceLine := some text }
          | none => error

/-- How the place of an error is written inside another one. -/
def location (error : Error) : String :=
  match error.span with
  | some span => s!"{span.line}:{span.column}"
  | none => "?"

/-- The error as the importer of a module meets it, at the place of the import. -/
def reraise (error : Error) (name : String) (importSpan : Span) : Error where
  cause := .inModule name error.location error.cause
  span := some importSpan
  backtrace := error.backtrace

def placeText (error : Error) : String :=
  match error.file, error.span with
  | some file, some span => s!"[{file}:{span.line}:{span.column}] "
  | none, some span => s!"[line {span.line}:{span.column}] "
  | some file, none => s!"[{file}] "
  | none, none => ""

def excerpt (error : Error) : String :=
  match error.sourceLine, error.span with
  | some line, some span =>
      "\n  | " ++ line ++ "\n  | " ++ Text.fill (span.column - 1) ' ' ++ "^"
  | _, _ => ""

def render (error : Error) : String :=
  error.placeText ++ error.errorClass.render ++ ": " ++ error.cause.message ++
    error.excerpt ++
    (match error.backtrace with
      | some backtrace => "\n" ++ backtrace
      | none => "")

end Error

/-- The part of an error that is sent from a worker to its caller. -/
structure ErrorReport where
  errorClass : ErrorClass
  cause : Cause
  span : Option Span
  file : Option String
  backtrace : Option String
deriving DecidableEq, Repr

namespace Error

def report (error : Error) : ErrorReport where
  errorClass := error.errorClass
  cause := error.cause
  span := error.span
  file := error.file
  backtrace := error.backtrace

/-- The error that a report describes; the class follows from the cause. -/
def ofReport (report : ErrorReport) : Error where
  cause := report.cause
  span := report.span
  file := report.file
  backtrace := report.backtrace

end Error

end StoneBoard
