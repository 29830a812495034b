import StoneBoard.Check
import StoneBoard.Code

/-!
# Compilation

Expressions become code that leaves one value on the stack, commands become code that
leaves the stack as it was.  Labels and hidden variables are numbered throughout a module.

* `a && b` is `a; jumpIfFalse S; b; jump E; S: False; E:`
* `a || b` is `a; jumpIfFalse R; True; jump E; R: b; E:`
* `while c b` is `B: c; jumpIfFalse E; b; jump B; E:`
* `repeatWith i in l..u b` gives `l` to the index and `u` to a hidden variable, and repeats
  `b` while the index has not reached it
-/

namespace StoneBoard

namespace Compilation

structure Counters where
  label : Nat
  hidden : Nat

namespace Counters

def start : Counters := ⟨0, 0⟩

def takeLabels (counters : Counters) (count : Nat) : Counters :=
  { counters with label := counters.label + count }

def takeHidden (counters : Counters) : Counters :=
  { counters with hidden := counters.hidden + 1 }

def hiddenName (counters : Counters) : String := s!"_tempvar{counters.hidden}"

end Counters

/-- The routine to call: the variant for the types of the arguments, if they are known and
there is one. -/
def calleeName (name : String) (argumentTypes : Option (List BasicTy)) : String :=
  match argumentTypes with
  | none => name
  | some types =>
      let variant := variantName name types
      if Builtin.isPolymorphicName name && Builtin.isDefined variant then variant else name

/-! ## Expressions -/

mutual

def compileExpr (label : Nat) : Expr → List Line × Nat
  | .literal value span => ([(.pushConstant value, span)], label)
  | .variableRef name span => ([(.pushVariable name, span)], label)
  | .call name arguments span argumentTypes =>
      let (code, label) := compileExprs label arguments
      (code ++ [(.call (calleeName name argumentTypes) arguments.length, span)], label)
  | .binary op left right span =>
      let (leftCode, label) := compileExpr label left
      let (rightCode, label) := compileExpr label right
      (leftCode ++ rightCode ++ [(.call op.symbol 2, span)], label)
  | .not operand span =>
      let (code, label) := compileExpr label operand
      (code ++ [(.call Operation.not.name 1, span)], label)
  | .negate operand span operandType =>
      let (code, label) := compileExpr label operand
      let callee := calleeName Operation.negate.name (operandType.map fun ty => [ty])
      (code ++ [(.call callee 1, span)], label)
  | .logical .and left right span =>
      let short := label
      let done := label + 1
      let (leftCode, label) := compileExpr (label + 2) left
      let (rightCode, label) := compileExpr label right
      (leftCode ++ [(.jumpIfFalse short, span)] ++
        rightCode ++ [(.jump done, span), (.label short, span),
          (.pushConstant (.bool false), span), (.label done, span)], label)
  | .logical .or left right span =>
      let other := label
      let done := label + 1
      let (leftCode, label) := compileExpr (label + 2) left
      let (rightCode, label) := compileExpr label right
      (leftCode ++ [(.jumpIfFalse other, span), (.pushConstant (.bool true), span),
          (.jump done, span), (.label other, span)] ++
        rightCode ++ [(.label done, span)], label)

def compileExprs (label : Nat) : List Expr → List Line × Nat
  | [] => ([], label)
  | first :: rest =>
      let (firstCode, label) := compileExpr label first
      let (restCode, label) := compileExprs label rest
      (firstCode ++ restCode, label)

end

def compileValue (counters : Counters) (value : Expr) : List Line × Counters :=
  let (code, label) := compileExpr counters.label value
  (code, { counters with label })

def compileValues (counters : Counters) (values : List Expr) : List Line × Counters :=
  let (code, label) := compileExprs counters.label values
  (code, { counters with label })

/-! ## Commands -/

/-- Compares the index of a loop with its limit, and leaves the loop if that is false. -/
def loopTest (index limit comparison : String) (done : Nat) (span : Span) : List Line :=
  [(.pushVariable index, span), (.pushVariable limit, span), (.call comparison 2, span),
   (.jumpIfFalse done, span)]

def loopAdvance (index : String) (indexType : Option BasicTy) (span : Span) : List Line :=
  let next := calleeName Operation.next.name (indexType.map fun ty => [ty])
  [(.pushVariable index, span), (.call next 1, span), (.assign index, span)]

mutual

def compileStmt (counters : Counters) : Stmt → Except Error (List Line × Counters)
  | .skip _ => .ok ([], counters)
  | .boom message span => .ok ([(.boom message, span)], counters)
  | .procedureCall name arguments span =>
      let (code, counters) := compileValues counters arguments
      .ok (code ++ [(.call name arguments.length, span)], counters)
  | .assign name value span =>
      let (code, counters) := compileValue counters value
      .ok (code ++ [(.assign name, span)], counters)
  | .tupleAssign names value span =>
      let (code, counters) := compileValue counters value
      let assignments := names.reverse.map fun name => (Instruction.assign name, span)
      .ok (code ++ assignments, counters)
  | .ifElse condition thenBranch none span => do
      let otherwise := counters.label
      let (test, counters) := compileValue (counters.takeLabels 1) condition
      let (thenCode, counters) ← compileBlock counters thenBranch
      return (test ++ [(.jumpIfFalse otherwise, span)] ++ thenCode ++
        [(.label otherwise, span)], counters)
  | .ifElse condition thenBranch (some elseBranch) span => do
      let otherwise := counters.label
      let (test, counters) := compileValue (counters.takeLabels 1) condition
      let (thenCode, counters) ← compileBlock counters thenBranch
      let done := counters.label
      let (elseCode, counters) ← compileBlock (counters.takeLabels 1) elseBranch
      return (test ++ [(.jumpIfFalse otherwise, span)] ++ thenCode ++
        [(.jump done, span), (.label otherwise, span)] ++ elseCode ++
        [(.label done, span)], counters)
  | .whileLoop condition body span => do
      let again := counters.label
      let done := counters.label + 1
      let (test, counters) := compileValue (counters.takeLabels 2) condition
      let (bodyCode, counters) ← compileBlock counters body
      return ([(.label again, span)] ++ test ++ [(.jumpIfFalse done, span)] ++ bodyCode ++
        [(.jump again, span), (.label done, span)], counters)
  | .repeatWith index lower upper body span indexType => do
      let limit := counters.hiddenName
      let again := counters.label
      let done := counters.label + 1
      let counters := counters.takeHidden.takeLabels 2
      let (lowerCode, counters) := compileValue counters lower
      let (upperCode, counters) := compileValue counters upper
      let (bodyCode, counters) ← compileBlock counters body
      return (lowerCode ++ [(.assign index, span)] ++ upperCode ++ [(.assign limit, span)] ++
        loopTest index limit Operation.lessEqual.name done span ++
        [(.label again, span)] ++ bodyCode ++
        loopTest index limit Operation.notEqual.name done span ++
        loopAdvance index indexType span ++
        [(.jump again, span), (.label done, span), (.deleteVariable index, span)], counters)
  | .caseOf scrutinee branches fallback span => do
      let subject := counters.hiddenName
      let done := counters.label
      let counters := counters.takeHidden.takeLabels 1
      let (scrutineeCode, counters) := compileValue counters scrutinee
      let (branchCode, counters) ← compileBranches subject done counters branches
      let (fallbackCode, counters) ← compileOptional counters fallback
      return (scrutineeCode ++ [(.assign subject, span)] ++ branchCode ++ fallbackCode ++
        [(.label done, span)], counters)
  | .block body _ => compileBlock counters body
  | .returns _ span _ => .error (Violation.returnNotLast.located span)

def compileBlock (counters : Counters) :
    List Stmt → Except Error (List Line × Counters)
  | [] => .ok ([], counters)
  | first :: rest => do
      let (firstCode, counters) ← compileStmt counters first
      let (restCode, counters) ← compileBlock counters rest
      return (firstCode ++ restCode, counters)

def compileOptional (counters : Counters) :
    Option (List Stmt) → Except Error (List Line × Counters)
  | none => .ok ([], counters)
  | some body => compileBlock counters body

/-- The code of the branches of a case: each one tests the variable `subject`, and those
that match go on to the label `done`. -/
def compileBranches (subject : String) (done : Nat) (counters : Counters) :
    List Branch → Except Error (List Line × Counters)
  | [] => .ok ([], counters)
  | .on literals body span :: rest => do
      let next := counters.label
      let (bodyCode, counters) ← compileBlock (counters.takeLabels 1) body
      let (restCode, counters) ← compileBranches subject done counters rest
      return ([(.pushVariable subject, span), (.jumpIfNotIn literals next, span)] ++
        bodyCode ++ [(.jump done, span), (.label next, span)] ++ restCode, counters)

end

/-! ## Routines -/

/-- The variables that the main procedure returns, each under its name and, if that is
known, its type. -/
def outputNames : List Expr → List Ty → Except Error (List (String × String))
  | [], _ => .ok []
  | .variableRef name _ :: rest, types => do
      let outputName := match types.head?.bind Ty.basic? with
        | some ty => variantName name [ty]
        | none => name
      return (name, outputName) :: (← outputNames rest types.tail)
  | other :: _, _ => .error (Violation.mainReturnsValue.located other.span)

def compileReturn (counters : Counters) (definition : Definition) :
    Except Error (List Line × Counters) :=
  let leave (span : Span) : List Line :=
    if definition.kind = .function then [(.leave, span)] else []
  match definition.finalReturn? with
  | some (.returns values span types) =>
      if definition.isMain then do
        let names ← outputNames values (types.getD [])
        let pushes := names.map fun (name, _) => (Instruction.pushVariable name, span)
        return (pushes ++ [(.returnNamed values.length (names.map Prod.snd), span)], counters)
      else
        let (code, counters) := compileValues counters values
        .ok (code ++ leave span ++ [(.returnValues values.length, span)], counters)
  | _ =>
      if definition.isMain then .ok ([(.returnNamed 0 [], definition.span)], counters)
      else .ok (leave definition.span ++ [(.returnValues 0, definition.span)], counters)

def bodyBeforeReturn (definition : Definition) : List Stmt :=
  match definition.finalReturn? with
  | some _ => definition.body.dropLast
  | none => definition.body

def compileDefinition (counters : Counters) (definition : Definition) :
    Except Error (Routine × Counters) := do
  let enter : List Line :=
    if definition.kind = .function then [(.enter, definition.span)] else []
  let (body, counters) ← compileBlock counters (bodyBeforeReturn definition)
  let (ending, counters) ← compileReturn counters definition
  let routine ← Routine.assemble definition.name definition.kind definition.parameters
    (enter ++ body ++ ending)
  return (routine, counters)

def compileDefinitions (counters : Counters) (routines : Table Routine) :
    List Definition → Except Error (Table Routine)
  | [] => .ok routines
  | first :: rest => do
      let (routine, counters) ← compileDefinition counters first
      compileDefinitions counters (routines.insert first.name routine) rest

/-! ## Modules -/

def linkNames (source : CompiledModule) (links : Table (CompiledModule × Routine)) :
    List (String × Span) → Except Error (Table (CompiledModule × Routine))
  | [] => .ok links
  | (name, span) :: rest =>
      match source.exported? name with
      | some link => linkNames source (links.insert name link) rest
      | none => .error (.located (.unknownRoutine name) span)

def compileModule (qualifier file : String) (links : Table (CompiledModule × Routine))
    (program : Program) : Except Error CompiledModule := do
  let routines ← compileDefinitions .start [] program.definitions
  return { qualifier, file, routines, links }

end Compilation

end StoneBoard
