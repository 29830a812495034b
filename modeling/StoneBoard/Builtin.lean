import StoneBoard.Error
import StoneBoard.RoutineKind
import StoneBoard.Value

/-!
# Builtin routines

The procedures that change the board, and the functions that every program can call.  A function
that works on scalars of every basic type also has a variant for each type, which refuses
arguments of any other.
-/

namespace StoneBoard

/-- A type in the signature of a builtin, in terms of one type variable. -/
inductive SignatureTy where
  | exact (ty : Ty)
  | variableTy
  | listOfVariable
deriving DecidableEq, Repr

namespace SignatureTy

def instantiate (binding : Ty) : SignatureTy → Ty
  | exact ty => ty
  | variableTy => binding
  | listOfVariable => .list binding

def render : SignatureTy → String
  | exact ty => ty.render
  | variableTy => "a"
  | listOfVariable => "List(a)"

end SignatureTy

/-- Types of the parameters and of the result; procedures have no result. -/
structure Signature where
  parameters : List SignatureTy
  result : Option SignatureTy
deriving DecidableEq, Repr

inductive Action where
  | putStone | takeStone | move | goToOrigin | clearBoard
deriving DecidableEq, Repr

namespace Action

def all : List Action := [putStone, takeStone, move, goToOrigin, clearBoard]

def name : Action → String
  | putStone => "PutStone"
  | takeStone => "TakeStone"
  | move => "Move"
  | goToOrigin => "GoToOrigin"
  | clearBoard => "ClearBoard"

def parameters : Action → List SignatureTy
  | putStone | takeStone => [.exact .color]
  | move => [.exact .direction]
  | goToOrigin | clearBoard => []

end Action

inductive Operation where
  -- the board under the head
  | numStones | existStones | canMove
  -- bounds of the finite types
  | minBool | maxBool | minDir | maxDir | minColor | maxColor
  -- neighbours
  | next | prev | opposite | negate
  -- comparisons
  | equal | notEqual | less | lessEqual | greaterEqual | greater
  -- booleans
  | not | and | or
  -- integers
  | add | subtract | multiply | power | div | mod
  -- lists
  | nil | cons | snoc | isNil | head | last | tail | init
deriving DecidableEq, Repr

namespace Operation

def all : List Operation :=
  [numStones, existStones, canMove, minBool, maxBool, minDir, maxDir, minColor, maxColor,
   next, prev, opposite, negate, equal, notEqual, less, lessEqual, greaterEqual, greater,
   not, and, or, add, subtract, multiply, power, div, mod,
   nil, cons, snoc, isNil, head, last, tail, init]

def name : Operation → String
  | numStones => "numStones"
  | existStones => "existStones"
  | canMove => "canMove"
  | minBool => "minBool"
  | maxBool => "maxBool"
  | minDir => "minDir"
  | maxDir => "maxDir"
  | minColor => "minColor"
  | maxColor => "maxColor"
  | next => "next"
  | prev => "prev"
  | opposite => "opposite"
  | negate => "unary-"
  | equal => "=="
  | notEqual => "/="
  | less => "<"
  | lessEqual => "<="
  | greaterEqual => ">="
  | greater => ">"
  | not => "not"
  | and => "&&"
  | or => "||"
  | add => "+"
  | subtract => "-"
  | multiply => "*"
  | power => "^"
  | div => "div"
  | mod => "mod"
  | nil => "nil"
  | cons => "cons"
  | snoc => "snoc"
  | isNil => "isNil"
  | head => "head"
  | last => "last"
  | tail => "tail"
  | init => "init"

def isPolymorphic : Operation → Bool
  | next | prev | opposite | negate => true
  | _ => false

def parameters : Operation → List SignatureTy
  | numStones | existStones => [.exact .color]
  | canMove => [.exact .direction]
  | minBool | maxBool | minDir | maxDir | minColor | maxColor | nil => []
  | next | prev | opposite | negate => [.variableTy]
  | equal | notEqual | less | lessEqual | greaterEqual | greater => [.variableTy, .variableTy]
  | not => [.exact .bool]
  | and | or => [.exact .bool, .exact .bool]
  | add | subtract | multiply | power | div | mod => [.exact .int, .exact .int]
  | cons => [.variableTy, .listOfVariable]
  | snoc => [.listOfVariable, .variableTy]
  | isNil | head | last | tail | init => [.listOfVariable]

def result : Operation → SignatureTy
  | numStones | add | subtract | multiply | power | div | mod => .exact .int
  | existStones | canMove | minBool | maxBool | equal | notEqual | less | lessEqual
  | greaterEqual | greater | not | and | or | isNil => .exact .bool
  | minDir | maxDir => .exact .direction
  | minColor | maxColor => .exact .color
  | next | prev | opposite | negate | head | last => .variableTy
  | nil | cons | snoc | tail | init => .listOfVariable

end Operation

/-! ## Arguments -/

def argumentFault (routine wanted : String) (value : Value) : Cause :=
  .argumentType s!"the argument to {routine} should be a {wanted}, got {value.typeName}"

namespace Value

def asColor (routine : String) : Value → Except Cause Color
  | color shade => .ok shade
  | other => .error (argumentFault routine "color" other)

def asDirection (routine : String) : Value → Except Cause Direction
  | direction heading => .ok heading
  | other => .error (argumentFault routine "direction" other)

def asList (routine : String) : Value → Except Cause (List Value)
  | list items => .ok items
  | other => .error (argumentFault routine "list" other)

def asBool : Value → Except Cause Bool
  | bool truth => .ok truth
  | _ => .error (.argumentType "logical operation over non-boolean values")

def asInts : Value → Value → Except Cause (Int × Int)
  | int first, int second => .ok (first, second)
  | _, _ => .error (.argumentType "arithmetic operation over non-numeric values")

end Value

/-! ## Effects -/

/-- The board after an action, which needs to be given its number of arguments. -/
def Action.perform (action : Action) (arguments : List Value) (board : Board) :
    Except Cause Board :=
  match action, arguments with
  | putStone, [argument] => do
      let color ← argument.asColor "PutStone"
      (board.putStone color).mapError .ofBoardFault
  | takeStone, [argument] => do
      let color ← argument.asColor "TakeStone"
      (board.takeStone color).mapError .ofBoardFault
  | move, [argument] => do
      let direction ← argument.asDirection "Move"
      (board.moveHead direction).mapError .ofBoardFault
  | goToOrigin, [] => .ok board.goToOrigin
  | clearBoard, [] => .ok board.clear
  | _, _ => .error (.wrongArity action.name action.parameters.length arguments.length)

def maxExponent : Nat := 4294967295

def integerPower (base exponent : Int) : Except Cause Int :=
  if exponent < 0 then .error .negativeExponent
  else if maxExponent < exponent then
    .error (.argumentType s!"exponent {exponent} is too large")
  else .ok (Int.pow base exponent.toNat)

/-- The greatest integer below the quotient. -/
def integerDiv (dividend divisor : Int) : Except Cause Int :=
  if divisor = 0 then .error .divisionByZero
  else
    let quotient := dividend.tdiv divisor
    let remainder := dividend.tmod divisor
    .ok (if remainder ≠ 0 ∧ ¬(remainder < 0 ↔ divisor < 0) then quotient - 1 else quotient)

/-- The remainder of `integerDiv`, with the sign of the divisor. -/
def integerMod (dividend divisor : Int) : Except Cause Int :=
  if divisor = 0 then .error .divisionByZero
  else
    let remainder := dividend.tmod divisor
    .ok (if remainder ≠ 0 ∧ ¬(remainder < 0 ↔ divisor < 0) then remainder + divisor else remainder)

/-- The opposite of a direction, or the negation of an integer. -/
def oppositeOf : Value → Except Cause Value
  | .direction heading => .ok (Value.direction heading).opposite
  | .int number => .ok (Value.int number).opposite
  | _ => .error
      (.argumentType "the argument to opposite should be a direction or an integer")

/-- Whether two values stand in an order that `holds` accepts. -/
def relation (holds : Ordering → Bool) (first second : Value) : Except Cause Value :=
  match first.compare? second with
  | some order => .ok (.bool (holds order))
  | none => .error (.incomparableValues first.typeName second.typeName)

def arithmetic (operate : Int → Int → Except Cause Int) (first second : Value) :
    Except Cause Value := do
  let (first, second) ← Value.asInts first second
  let result ← operate first second
  return .int result

/-- A nonempty list that a routine was given: its first element and the others. -/
def Value.asNonempty (routine : String) (value : Value) :
    Except Cause (Value × List Value) := do
  match ← value.asList routine with
  | [] => throw .emptyList
  | first :: rest => return (first, rest)

/-- The value of a function, which needs to be given its number of arguments. -/
def Operation.apply (operation : Operation) (arguments : List Value) (board : Board) :
    Except Cause Value :=
  match operation, arguments with
  | numStones, [argument] => do
      return .int (board.stones (← argument.asColor "numStones"))
  | existStones, [argument] => do
      return .bool (board.hasStones (← argument.asColor "existStones"))
  | canMove, [argument] => do
      return .bool (board.canMove (← argument.asDirection "canMove"))
  | minBool, [] => .ok (.bool false)
  | maxBool, [] => .ok (.bool true)
  | minDir, [] => .ok (.direction Direction.least)
  | maxDir, [] => .ok (.direction Direction.greatest)
  | minColor, [] => .ok (.color Color.least)
  | maxColor, [] => .ok (.color Color.greatest)
  | next, [argument] => .ok argument.next
  | prev, [argument] => .ok argument.previous
  | opposite, [argument] => oppositeOf argument
  | negate, [argument] => oppositeOf argument
  | equal, [first, second] => relation (· == .eq) first second
  | notEqual, [first, second] => relation (· != .eq) first second
  | less, [first, second] => relation (· == .lt) first second
  | lessEqual, [first, second] => relation (· != .gt) first second
  | greaterEqual, [first, second] => relation (· != .lt) first second
  | greater, [first, second] => relation (· == .gt) first second
  | not, [argument] => do
      return .bool (!(← argument.asBool))
  | and, [first, second] => do
      let first ← first.asBool
      let second ← second.asBool
      return .bool (first && second)
  | or, [first, second] => do
      let first ← first.asBool
      let second ← second.asBool
      return .bool (first || second)
  | add, [first, second] => arithmetic (fun x y => .ok (x + y)) first second
  | subtract, [first, second] => arithmetic (fun x y => .ok (x - y)) first second
  | multiply, [first, second] => arithmetic (fun x y => .ok (x * y)) first second
  | power, [first, second] => arithmetic integerPower first second
  | div, [first, second] => arithmetic integerDiv first second
  | mod, [first, second] => arithmetic integerMod first second
  | nil, [] => .ok (.list [])
  | cons, [item, items] => do
      return .list (item :: (← items.asList "cons"))
  | snoc, [items, item] => do
      return .list ((← items.asList "snoc") ++ [item])
  | isNil, [items] => do
      return .bool (← items.asList "isNil").isEmpty
  | head, [items] => do
      let (first, _) ← items.asNonempty "head"
      return first
  | last, [items] => do
      let (first, rest) ← items.asNonempty "last"
      return (first :: rest).getLast (List.cons_ne_nil first rest)
  | tail, [items] => do
      let (_, rest) ← items.asNonempty "tail"
      return .list rest
  | init, [items] => do
      let (first, rest) ← items.asNonempty "init"
      return .list (first :: rest).dropLast
  | _, _ => .error (.wrongArity operation.name operation.parameters.length arguments.length)

/-! ## The table -/

inductive Builtin where
  | action (act : Action)
  | operation (op : Operation)
  /-- the variant of a polymorphic function for arguments of one basic type -/
  | variant (op : Operation) (ty : BasicTy)
deriving DecidableEq, Repr

namespace Builtin

def name : Builtin → String
  | action act => act.name
  | operation op => op.name
  | variant op ty => variantName op.name [ty]

def kind : Builtin → RoutineKind
  | action _ => .procedure
  | _ => .function

/-- The parameters and the result; a variant has its basic type in place of the type
variable. -/
def signature : Builtin → Signature
  | action act => ⟨act.parameters, none⟩
  | operation op => ⟨op.parameters, some op.result⟩
  | variant _ ty => ⟨[.exact (.basic ty)], some (.exact (.basic ty))⟩

def arity (builtin : Builtin) : Nat := builtin.signature.parameters.length

def variants (op : Operation) : List Builtin :=
  if op.isPolymorphic then BasicTy.all.map fun ty => variant op ty else []

def all : List Builtin :=
  Action.all.map action ++ Operation.all.map operation ++ Operation.all.flatMap variants

def table : List (String × Builtin) := all.map fun builtin => (builtin.name, builtin)

def ofName? (name : String) : Option Builtin := table.lookup name

def isDefined (name : String) : Bool := (ofName? name).isSome

def isPolymorphicName (name : String) : Bool :=
  Operation.all.any fun op => op.isPolymorphic && op.name == name

def variantFault (op : Operation) (ty : BasicTy) (value : Value) : Cause :=
  .argumentType (variantName op.name [ty] ++
    s!" expects a value of type {ty.name}, got {value.typeName}")

def run (builtin : Builtin) (arguments : List Value) (board : Board) :
    Except Cause (Board × Option Value) :=
  match builtin with
  | action act => do
      return (← act.perform arguments board, none)
  | operation op => do
      return (board, some (← op.apply arguments board))
  | variant op ty =>
      match arguments.find? fun argument => argument.basicTy? != some ty with
      | some argument => .error (variantFault op ty argument)
      | none => do
          return (board, some (← op.apply arguments board))

end Builtin

end StoneBoard
