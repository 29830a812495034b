import StoneBoard.Builtin
import StoneBoard.Program
import StoneBoard.Table

/-!
# Interfaces

What the users of a module know about its routines.
-/

namespace StoneBoard

structure RoutineInfo where
  kind : RoutineKind
  arity : Nat
  /-- one type for every returned value; none for procedures -/
  returns : List Ty
deriving DecidableEq, Repr

abbrev Interface := Table RoutineInfo

def Builtin.info (builtin : Builtin) : RoutineInfo where
  kind := builtin.kind
  arity := builtin.arity
  returns := if builtin.kind = .function then [.unknown] else []

def Definition.info (definition : Definition) : RoutineInfo where
  kind := definition.kind
  arity := definition.parameters.length
  returns :=
    match definition.kind, definition.returnCount? with
    | .function, some count => List.replicate count .unknown
    | _, _ => []

end StoneBoard
