import StoneBoard.Error
import StoneBoard.RoutineKind
import StoneBoard.Table
import StoneBoard.Value

/-!
# Code

Routines are compiled to lists of instructions for a stack machine.  Jumps name labels;
before a routine can run, a table tells for every label the place behind it.
-/

namespace StoneBoard

inductive Instruction where
  | pushConstant (value : Value)
  | pushVariable (name : String)
  /-- takes a value off the stack and gives it to a variable -/
  | assign (name : String)
  | deleteVariable (name : String)
  /-- does nothing but mark a place -/
  | label (target : Nat)
  | jump (target : Nat)
  /-- takes a boolean off the stack and jumps if it is false -/
  | jumpIfFalse (target : Nat)
  /-- takes a value off the stack and jumps if it is none of these -/
  | jumpIfNotIn (values : List Value) (target : Nat)
  | call (routine : String) (argumentCount : Nat)
  | boom (message : String)
  /-- saves the board at the start of a function -/
  | enter
  /-- goes back to the saved board at the end of a function -/
  | leave
  | returnValues (count : Nat)
  /-- returns values under their names to whoever started the program -/
  | returnNamed (count : Nat) (names : List String)
deriving Repr

namespace Instruction

def target? : Instruction → Option Nat
  | jump target | jumpIfFalse target | jumpIfNotIn _ target => some target
  | _ => none

end Instruction

abbrev Line := Instruction × Span

def labelName (label : Nat) : String := s!"L{label}"

/-- For every label the offset of the instruction behind it. -/
abbrev LabelTable := List (Nat × Nat)

structure Routine where
  name : String
  kind : RoutineKind
  parameters : List String
  code : Array Line
  labels : LabelTable := []

namespace Routine

def target? (routine : Routine) (label : Nat) : Option Nat := routine.labels.lookup label

def spanAt? (routine : Routine) (offset : Nat) : Option Span :=
  routine.code[offset]?.map Prod.snd

/-- The labels of the lines from an offset on, added to `labels`.  A label that is defined
twice ends the walk; it stays in the table with its second place. -/
def placeLabels (name : String) (labels : LabelTable) (offset : Nat) :
    List Line → LabelTable × Option Error
  | [] => (labels, none)
  | (.label label, span) :: rest =>
      let extended := (label, offset + 1) :: labels
      if (labels.lookup label).isSome then
        let fault := s!"label {labelName label} defined twice in {name}"
        (extended, some (.located (.internal fault) span))
      else placeLabels name extended (offset + 1) rest
  | _ :: rest => placeLabels name labels (offset + 1) rest

def undefinedTarget? (name : String) (labels : LabelTable) : List Line → Option Error
  | [] => none
  | (instruction, span) :: rest =>
      match instruction.target? with
      | none => undefinedTarget? name labels rest
      | some label =>
          if (labels.lookup label).isSome then undefinedTarget? name labels rest
          else
            let fault := s!"undefined label {labelName label} in {name}"
            some (.located (.internal fault) span)

def resolveLabels (routine : Routine) : Routine × Option Error :=
  let lines := routine.code.toList
  match placeLabels routine.name [] 0 lines with
  | (labels, some error) => ({ routine with labels }, some error)
  | (labels, none) => ({ routine with labels }, undefinedTarget? routine.name labels lines)

def assemble (name : String) (kind : RoutineKind) (parameters : List String)
    (lines : List Line) : Except Error Routine :=
  match ({ name, kind, parameters, code := lines.toArray } : Routine).resolveLabels with
  | (routine, none) => .ok routine
  | (_, some error) => .error error

end Routine

/-- A compiled module.  Every imported routine is linked to the module that defines it. -/
structure CompiledModule where
  /-- the name of the module; empty for the program that is started -/
  qualifier : String
  file : String
  routines : Table Routine
  links : List (String × CompiledModule × Routine)

namespace CompiledModule

def qualified (compiled : CompiledModule) (name : String) : String :=
  if compiled.qualifier.isEmpty then name else compiled.qualifier ++ "." ++ name

/-- The routine that others import under a name, with the module that defines it. -/
def exported? (compiled : CompiledModule) (name : String) :
    Option (CompiledModule × Routine) :=
  match compiled.routines.get? name with
  | some routine => some (compiled, routine)
  | none => Table.get? compiled.links name

end CompiledModule

end StoneBoard
