import StoneBoard.Code
import StoneBoard.Text.Quoted

/-!
# Listings

Compiled code as text: one line for each instruction, with its offset and the line of the
program text that it comes from.
-/

namespace StoneBoard

def Instruction.render : Instruction → String
  | pushConstant value => s!"pushConst {value.render}"
  | pushVariable name => s!"pushVar {name}"
  | assign name => s!"assign {name}"
  | deleteVariable name => s!"delVar {name}"
  | label target => s!"{labelName target}:"
  | jump target => s!"jump {labelName target}"
  | jumpIfFalse target => s!"jumpIfFalse {labelName target}"
  | jumpIfNotIn values target =>
      let texts := String.intercalate ", " (values.map Value.render)
      s!"jumpIfNotIn [{texts}] {labelName target}"
  | call routine argumentCount => s!"call {routine} {argumentCount}"
  | boom message => s!"BOOM {Text.quoted message}"
  | enter => "enter"
  | leave => "leave"
  | returnValues count => s!"return {count}"
  | returnNamed count names =>
      let texts := String.intercalate ", " names
      s!"returnVars {count} [{texts}]"

def Line.render (offset : Nat) (line : Line) : String :=
  let (instruction, span) := line
  let margin := match instruction with
    | .label _ => " "
    | _ => "     "
  Text.alignRight 4 (toString offset) '0' ++ " " ++
    Text.alignRight 4 (toString span.line) ' ' ++ margin ++ instruction.render ++ "\n"

def Routine.listing (routine : Routine) : String :=
  let parameters := String.intercalate ", " routine.parameters
  let lines := routine.code.toList.mapIdx Line.render
  s!"{routine.kind.name} {routine.name}({parameters})\n" ++ String.join lines

/-- The routines of a module and then its imports, each in the order of their names. -/
def CompiledModule.listing (compiled : CompiledModule) : String :=
  let routines := compiled.routines.sorted.map fun (_, routine) => routine.listing ++ "\n"
  let imports := (Table.sorted compiled.links).map fun (name, owner, _) =>
    s!"import {name} from {owner.file}\n"
  String.join routines ++ String.join imports

end StoneBoard
