import StoneBoard.Json.Reader
import StoneBoard.Json.Writer
import StoneBoard.Wire

/-!
# Messages

What a worker and its caller say to each other, one message a line.  The caller asks for
a run or for the end; the worker reports its progress and then the outcome.
-/

namespace StoneBoard

inductive Message where
  | start (filename source board : String)
  | exit
  | log (text : String)
  | ok (board : String) (result : Bindings)
  | fail (report : ErrorReport)

namespace Message

def toJson : Message → Json
  | start filename source board =>
      .object [("tag", .string "START"), ("filename", .string filename),
        ("source", .string source), ("board", .string board)]
  | exit => .object [("tag", .string "EXIT")]
  | log text => .object [("tag", .string "LOG"), ("message", .string text)]
  | ok board result =>
      .object [("tag", .string "OK"), ("board", .string board),
        ("result", .array (result.map Wire.bindingToJson))]
  | fail report => .object [("tag", .string "FAIL"), ("error", report.toJson)]

def encode (message : Message) : String := message.toJson.render

def ofFields? (tag : String) (fields : Json) : Option Message :=
  match tag with
  | "START" =>
      match fields.record? true ["filename", "source", "board"] with
      | some [some filename, some source, some board] => do
          return start (← filename.string?) (← source.string?) (← board.string?)
      | _ => none
  | "EXIT" =>
      match fields with
      | .array (_ :: _) => none
      | _ => some exit
  | "LOG" =>
      match fields.record? true ["message"] with
      | some [some text] => text.string?.map log
      | _ => none
  | "OK" =>
      match fields.record? true ["board", "result"] with
      | some [some board, some (.array result)] => do
          return ok (← board.string?) (← result.mapM (Wire.bindingOfJson? true))
      | _ => none
  | "FAIL" =>
      match fields.record? true ["error"] with
      | some [some report] => (ErrorReport.ofJson? true report).map fail
      | _ => none
  | _ => none

/-- A message, as an object with its tag among the fields or as an array that starts with
its tag. -/
def ofJson? : Json → Option Message
  | .object fields =>
      match fields.partition fun field => field.1 == "tag" with
      | ([(_, .string tag)], others) => ofFields? tag (.object others)
      | _ => none
  | .array (.string tag :: items) => ofFields? tag (.array items)
  | _ => none

def nestingLimit : Nat := 127

def decode? (line : String) : Option Message :=
  (Json.read? nestingLimit line).bind ofJson?

def decode (line : String) : Except Error Message :=
  match decode? line with
  | some message => .ok message
  | none => .error (.ofCause (.protocol "bad message"))

end Message

end StoneBoard
