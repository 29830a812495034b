import StoneBoard.Message
import StoneBoard.Text.Quoted

/-!
# Messages in messages

A message that should not have been sent is quoted in the complaint about it: the name of
each constructor, with its fields in parentheses or by name in braces.
-/

namespace StoneBoard

namespace Description

def applied (name : String) (fields : List String) : String :=
  name ++ "(" ++ String.intercalate ", " fields ++ ")"

def record (name : String) (fields : List (String × String)) : String :=
  let texts := fields.map fun field => field.1 ++ ": " ++ field.2
  name ++ " \x7b " ++ String.intercalate ", " texts ++ " \x7d"

def optional {α : Type} (describe : α → String) : Option α → String
  | none => "None"
  | some value => applied "Some" [describe value]

def bracketed (texts : List String) : String :=
  "[" ++ String.intercalate ", " texts ++ "]"

end Description

open Description Text

namespace Value

mutual

def describe : Value → String
  | .int number => applied "Int" [toString number]
  | .bool truth => applied "Bool" [if truth then "true" else "false"]
  | .color shade => applied "Color" [shade.name]
  | .direction heading => applied "Dir" [heading.name]
  | .list items => applied "List" [bracketed (describeAll items)]

def describeAll : List Value → List String
  | [] => []
  | first :: rest => describe first :: describeAll rest

end

end Value

def Span.describe (span : Span) : String :=
  record "Span" [("start", toString span.start), ("end", toString span.stop),
    ("line", toString span.line), ("column", toString span.column)]

def Cause.describe (cause : Cause) : String :=
  match cause with
  | unterminatedString | unterminatedComment | divisionByZero | negativeExponent | emptyList
  | conditionNotBoolean | noMain | interrupted => cause.tag
  | unexpectedCharacter character => applied cause.tag [quotedSingle character]
  | unexpectedToken text | semantic text | unknownRoutine text | moduleNotFound text
  | recursiveModules text | boardFormat text | io text | argumentType text
  | undefinedRoutine text | uninitializedVariable text | boom text | protocol text
  | internal text => applied cause.tag [quoted text]
  | expectedToken expected found | typeMismatch expected found =>
      record cause.tag [("expected", quoted expected), ("found", quoted found)]
  | inModule name location inner =>
      record cause.tag [("module", quoted name), ("location", quoted location),
        ("inner", inner.describe)]
  | incomparableValues first second => applied cause.tag [quoted first, quoted second]
  | emptyColor color | stoneOverflow color => applied cause.tag [color.name]
  | cannotMove direction => applied cause.tag [direction.name]
  | wrongArity routine expected found =>
      record cause.tag [("routine", quoted routine), ("expected", toString expected),
        ("found", toString found)]
  | stackOverflow limit => applied cause.tag [toString limit]

def ErrorReport.describe (report : ErrorReport) : String :=
  record "ErrorReport" [("class", report.errorClass.tag), ("kind", report.cause.describe),
    ("span", optional Span.describe report.span), ("file", optional quoted report.file),
    ("backtrace", optional quoted report.backtrace)]

def Description.binding (binding : String × Value) : String :=
  applied "" [quoted binding.1, binding.2.describe]

def Message.describe : Message → String
  | start filename source board =>
      record "Start" [("filename", quoted filename), ("source", quoted source),
        ("board", quoted board)]
  | exit => "Exit"
  | log text => record "Log" [("message", quoted text)]
  | ok board result =>
      record "Ok" [("board", quoted board), ("result", bracketed (result.map binding))]
  | fail report => record "Fail" [("error", report.describe)]

end StoneBoard
