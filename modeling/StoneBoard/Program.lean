import StoneBoard.RoutineKind
import StoneBoard.Span
import StoneBoard.Value

/-!
# Programs

The syntax tree of a program: imports, then definitions of procedures and functions.
Every node knows its place in the text.  Some nodes have a slot for a type, which is
empty until types have been inferred.
-/

namespace StoneBoard

inductive BinaryOp where
  | add | subtract | multiply | power | div | mod
  | equal | notEqual | less | lessEqual | greater | greaterEqual
deriving DecidableEq, Repr

namespace BinaryOp

/-- The operator as it is written, which is also the name of its builtin function. -/
def symbol : BinaryOp → String
  | add => "+"
  | subtract => "-"
  | multiply => "*"
  | power => "^"
  | div => "div"
  | mod => "mod"
  | equal => "=="
  | notEqual => "/="
  | less => "<"
  | lessEqual => "<="
  | greater => ">"
  | greaterEqual => ">="

end BinaryOp

/-- Operators that may leave their right operand alone. -/
inductive LogicalOp where
  | and | or
deriving DecidableEq, Repr

namespace LogicalOp

def symbol : LogicalOp → String
  | and => "&&"
  | or => "||"

end LogicalOp

inductive Expr where
  | literal (value : Value) (span : Span)
  | variableRef (name : String) (span : Span)
  /-- a call of a function; the types of the arguments are set for polymorphic builtins
  when all of them are known -/
  | call (name : String) (arguments : List Expr) (span : Span)
      (argumentTypes : Option (List BasicTy))
  | binary (op : BinaryOp) (left right : Expr) (span : Span)
  | not (operand : Expr) (span : Span)
  | negate (operand : Expr) (span : Span) (operandType : Option BasicTy)
  | logical (op : LogicalOp) (left right : Expr) (span : Span)
deriving Repr, Inhabited

namespace Expr

def span : Expr → Span
  | literal _ span => span
  | variableRef _ span => span
  | call _ _ span _ => span
  | binary _ _ _ span => span
  | not _ span => span
  | negate _ span _ => span
  | logical _ _ _ span => span

def listOf (items : List Expr) (span : Span) : Expr :=
  items.foldr (fun item list => call "cons" [item, list] span none)
    (call "nil" [] span none)

end Expr

mutual

inductive Stmt where
  | skip (span : Span)
  | boom (message : String) (span : Span)
  | procedureCall (name : String) (arguments : List Expr) (span : Span)
  | assign (name : String) (value : Expr) (span : Span)
  | tupleAssign (names : List String) (value : Expr) (span : Span)
  | ifElse (condition : Expr) (thenBranch : List Stmt) (elseBranch : Option (List Stmt))
      (span : Span)
  | whileLoop (condition : Expr) (body : List Stmt) (span : Span)
  | repeatWith (index : String) (lower upper : Expr) (body : List Stmt) (span : Span)
      (indexType : Option BasicTy)
  | caseOf (scrutinee : Expr) (branches : List Branch) (fallback : Option (List Stmt))
      (span : Span)
  | block (body : List Stmt) (span : Span)
  | returns (values : List Expr) (span : Span) (types : Option (List Ty))

inductive Branch where
  | on (literals : List Value) (body : List Stmt) (span : Span)

end

namespace Stmt

def returned? : Stmt → Option (List Expr)
  | returns values _ _ => some values
  | _ => none

end Stmt

structure Definition where
  kind : RoutineKind
  name : String
  parameters : List String
  body : List Stmt
  span : Span

namespace Definition

def finalReturn? (definition : Definition) : Option Stmt :=
  match definition.body.getLast? with
  | some (.returns values span types) => some (.returns values span types)
  | _ => none

def returnCount? (definition : Definition) : Option Nat :=
  (definition.finalReturn?.bind Stmt.returned?).map List.length

def isMain (definition : Definition) : Bool :=
  definition.kind == .procedure && definition.name == "Main"

end Definition

structure Import where
  source : String
  names : List (String × Span)
  span : Span

structure Program where
  imports : List Import
  definitions : List Definition

namespace Program

def definition? (program : Program) (name : String) : Option Definition :=
  program.definitions.find? fun definition => definition.name == name

end Program

end StoneBoard
