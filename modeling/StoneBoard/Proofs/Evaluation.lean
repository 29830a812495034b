import StoneBoard.Library
import StoneBoard.Machine

/-!
# Evaluation

What programs mean, told by their syntax trees alone: expressions have values, commands
change variables, board and log, and calls run the body of the definition that a name
stands for.  There are no labels, no hidden variables and no operand stack.

Loops and calls need fuel.  An evaluation that runs out of it has no outcome; all others
end with a value or with the cause of a failure, and with the scene at that moment.
-/

namespace StoneBoard

/-! ## What names stand for -/

/-- A program together with the modules that it can use.  Each module stands before those
that it imports itself. -/
structure Site where
  program : Program
  modules : List Analyzed

namespace Program

def importOf? (program : Program) (name : String) : Option Import :=
  program.imports.find? fun declaration => declaration.names.any fun entry => entry.1 == name

end Program

namespace Site

/-- The definition that a module gives to those who import a name from it: its own one, or
the one that it imports under that name. -/
def exported? (name : String) : List Analyzed → String → Option (Site × Definition)
  | [], _ => none
  | known :: older, source =>
      if known.name = source then
        match known.program.definition? name with
        | some definition => some (⟨known.program, older⟩, definition)
        | none =>
            match known.program.importOf? name with
            | some declaration => exported? name older declaration.source
            | none => none
      else exported? name older source

/-- The definition that a name stands for, and the program around it. -/
def routine? (site : Site) (name : String) : Option (Site × Definition) :=
  match site.program.definition? name with
  | some definition => some (site, definition)
  | none =>
      match site.program.importOf? name with
      | some declaration => exported? name site.modules declaration.source
      | none => none

end Site

/-! ## Computations -/

/-- A computation on a scene that may fail, and may run out of fuel. -/
abbrev Evaluation := ExceptT Cause (StateT Scene Option)

namespace Evaluation

def exhausted {α : Type} : Evaluation α := ExceptT.mk fun _ => none

def variableValue (locals : Bindings) (name : String) : Evaluation Value :=
  match Table.get? locals name with
  | some value => pure value
  | none => throw (.uninitializedVariable name)

def truth : Value → Evaluation Bool
  | .bool truth => pure truth
  | _ => throw .conditionNotBoolean

def single : List Value → Evaluation Value
  | [value] => pure value
  | _ => throw (.internal "one value expected")

/-- Runs a builtin in a routine.  A function gives one value; a procedure gives none, and
the log tells of it. -/
def builtin (routine : String) (callee : Builtin) (arguments : List Value) :
    Evaluation (List Value) := do
  let scene ← get
  match callee.run arguments scene.board with
  | .error cause => throw cause
  | .ok (_, some value) => return [value]
  | .ok (board, none) =>
      let texts := String.intercalate ", " (arguments.map Value.render)
      set (Scene.mk board (scene.log.record routine s!"{callee.name}({texts})" board.head))
      return []

end Evaluation

/-- The builtin that runs for arguments of known types: the variant of a polymorphic
function for its one argument. -/
def Builtin.forTypes : Builtin → Option (List BasicTy) → Builtin
  | .operation op, some [ty] => if op.isPolymorphic then .variant op ty else .operation op
  | callee, _ => callee

def BinaryOp.operation : BinaryOp → Operation
  | add => .add
  | subtract => .subtract
  | multiply => .multiply
  | power => .power
  | div => .div
  | mod => .mod
  | equal => .equal
  | notEqual => .notEqual
  | less => .less
  | lessEqual => .lessEqual
  | greater => .greater
  | greaterEqual => .greaterEqual

/-- What evaluation has to know about the place of an expression or a command. -/
structure Context where
  site : Site
  routine : String
  maxDepth : Nat
  depth : Nat
  call : Site → Definition → List Value → Evaluation (List Value)
  fuel : Nat

namespace Context

/-- Calls what a name stands for: a routine of the program, unless too many calls are under
way, or a builtin for the types of the arguments that are known. -/
def invoke (context : Context) (name : String) (types : Option (List BasicTy))
    (arguments : List Value) : Evaluation (List Value) :=
  match context.site.routine? name with
  | some (site, definition) =>
      if context.maxDepth ≤ context.depth then throw (.stackOverflow context.maxDepth)
      else context.call site definition arguments
  | none =>
      match Builtin.ofName? name with
      | some callee => Evaluation.builtin context.routine (callee.forTypes types) arguments
      | none => throw (.undefinedRoutine name)

def operate (context : Context) (op : Operation) (types : Option (List BasicTy))
    (arguments : List Value) : Evaluation Value := do
  let values ← Evaluation.builtin context.routine ((Builtin.operation op).forTypes types) arguments
  Evaluation.single values

/-! ## Expressions -/

mutual

def evalExpr (context : Context) (locals : Bindings) : Expr → Evaluation Value
  | .literal value _ => pure value
  | .variableRef name _ => Evaluation.variableValue locals name
  | .call name arguments _ types => do
      let values ← context.evalExprs locals arguments
      let results ← context.invoke name types values
      Evaluation.single results
  | .binary op left right _ => do
      let first ← context.evalExpr locals left
      let second ← context.evalExpr locals right
      context.operate op.operation none [first, second]
  | .not operand _ => do
      let value ← context.evalExpr locals operand
      context.operate .not none [value]
  | .negate operand _ type => do
      let value ← context.evalExpr locals operand
      context.operate .negate (type.map fun ty => [ty]) [value]
  | .logical .and left right _ => do
      let first ← context.evalExpr locals left
      if ← Evaluation.truth first then context.evalExpr locals right else return .bool false
  | .logical .or left right _ => do
      let first ← context.evalExpr locals left
      if ← Evaluation.truth first then return .bool true else context.evalExpr locals right

def evalExprs (context : Context) (locals : Bindings) : List Expr → Evaluation (List Value)
  | [] => pure []
  | first :: rest => do
      let value ← context.evalExpr locals first
      let values ← context.evalExprs locals rest
      return value :: values

end

def evalTuple (context : Context) (locals : Bindings) : Expr → Evaluation (List Value)
  | .call name arguments _ types => do
      let values ← context.evalExprs locals arguments
      context.invoke name types values
  | other => do
      let value ← context.evalExpr locals other
      return [value]

/-! ## Commands -/

def whileLoop (test : Bindings → Evaluation Bool) (body : Bindings → Evaluation Bindings) :
    (fuel : Nat) → Bindings → Evaluation Bindings
  | 0, _ => Evaluation.exhausted
  | fuel + 1, locals => do
      if ← test locals then
        let locals ← body locals
        whileLoop test body fuel locals
      else return locals

/-- Repeats a body until the index has reached the limit, and moves the index to the next
value after every other round. -/
def repeatLoop (context : Context) (index : String) (indexType : Option BasicTy)
    (limit : Value) (body : Bindings → Evaluation Bindings) :
    (fuel : Nat) → Bindings → Evaluation Bindings
  | 0, _ => Evaluation.exhausted
  | fuel + 1, locals => do
      let locals ← body locals
      let current ← Evaluation.variableValue locals index
      let unequal ← context.operate .notEqual none [current, limit]
      if ← Evaluation.truth unequal then
        let next ← context.operate .next (indexType.map fun ty => [ty]) [current]
        context.repeatLoop index indexType limit body fuel (Table.insert locals index next)
      else return locals

mutual

def execStmt (context : Context) : Stmt → Bindings → Evaluation Bindings
  | .skip _, locals => return locals
  | .boom message _, _ => throw (.boom message)
  | .procedureCall name arguments _, locals => do
      let values ← context.evalExprs locals arguments
      let _ ← context.invoke name none values
      return locals
  | .assign name value _, locals => do
      let value ← context.evalExpr locals value
      return Table.insert locals name value
  | .tupleAssign names value _, locals => do
      let values ← context.evalTuple locals value
      return Table.insertAll locals (names.zip values)
  | .ifElse condition thenBranch elseBranch _, locals => do
      let value ← context.evalExpr locals condition
      if ← Evaluation.truth value then context.execBlock thenBranch locals
      else context.execOptional elseBranch locals
  | .whileLoop condition body _, locals =>
      whileLoop (fun locals => do Evaluation.truth (← context.evalExpr locals condition))
        (context.execBlock body) context.fuel locals
  | .repeatWith index lower upper body _ indexType, locals => do
      let first ← context.evalExpr locals lower
      let locals := Table.insert locals index first
      let limit ← context.evalExpr locals upper
      let inRange ← context.operate .lessEqual none [first, limit]
      let locals ←
        if ← Evaluation.truth inRange then
          context.repeatLoop index indexType limit (context.execBlock body) context.fuel locals
        else pure locals
      return Table.erase locals index
  | .caseOf scrutinee branches fallback _, locals => do
      let subject ← context.evalExpr locals scrutinee
      context.execBranches subject branches (context.execOptional fallback) locals
  | .block body _, locals => context.execBlock body locals
  | .returns _ _ _, _ => throw (.internal "return can only be the last command of a routine")

def execBlock (context : Context) : List Stmt → Bindings → Evaluation Bindings
  | [], locals => return locals
  | first :: rest, locals => do
      let locals ← context.execStmt first locals
      context.execBlock rest locals

def execOptional (context : Context) : Option (List Stmt) → Bindings → Evaluation Bindings
  | none, locals => return locals
  | some body, locals => context.execBlock body locals

def execBranches (context : Context) (subject : Value) :
    List Branch → (otherwise : Bindings → Evaluation Bindings) → Bindings → Evaluation Bindings
  | [], otherwise, locals => otherwise locals
  | .on literals body _ :: rest, otherwise, locals =>
      if literals.contains subject then context.execBlock body locals
      else context.execBranches subject rest otherwise locals

end

end Context

/-! ## Routines and programs -/

namespace Definition

def returned (definition : Definition) : List Expr :=
  (definition.finalReturn?.bind Stmt.returned?).getD []

end Definition

namespace Context

def evalBody (context : Context) (definition : Definition) (arguments : List Value) :
    Evaluation (List Value) := do
  let locals := Table.insertAll [] (definition.parameters.zip arguments)
  let locals ← context.execBlock (Compilation.bodyBeforeReturn definition) locals
  context.evalExprs locals definition.returned

/-- Runs a definition for whoever calls it.  A function saves the board and goes back to it
in the end; a procedure, the main one included, gives no values. -/
def evalDefinition (context : Context) (definition : Definition) (arguments : List Value) :
    Evaluation (List Value) :=
  match definition.kind with
  | .procedure => do
      let _ ← context.evalBody definition arguments
      return []
  | .function => do
      modify fun scene => ⟨scene.board.save, scene.log.openMark⟩
      let values ← context.evalBody definition arguments
      modify fun scene => ⟨scene.board.restore, scene.log.closeMark⟩
      return values

def evalCall (maxDepth : Nat) :
    (fuel depth : Nat) → Site → Definition → List Value → Evaluation (List Value)
  | 0, _, _, _, _ => Evaluation.exhausted
  | fuel + 1, depth, site, definition, arguments =>
      let context : Context :=
        { site, routine := definition.name, maxDepth, depth
          call := evalCall maxDepth fuel (depth + 1), fuel := fuel + 1 }
      context.evalDefinition definition arguments

end Context

def Expr.variableName? : Expr → Option String
  | variableRef name _ => some name
  | _ => none

namespace Site

/-- Runs the main procedure of a program, and gives the variables that it returns. -/
def evaluate (site : Site) (maxDepth fuel : Nat) : Evaluation Bindings :=
  match site.program.definition? "Main" with
  | none => throw .noMain
  | some main => do
      let context : Context :=
        { site, routine := main.name, maxDepth, depth := 1
          call := Context.evalCall maxDepth fuel 2, fuel := fuel + 1 }
      let values ← context.evalBody main []
      return (main.returned.filterMap Expr.variableName?).zip values

/-- The outcome of a program on a scene: its result or the cause of its failure, and the
scene in the end.  There is none if the fuel does not last. -/
def outcome? (site : Site) (maxDepth fuel : Nat) (scene : Scene) :
    Option (Except Cause Bindings × Scene) :=
  (site.evaluate maxDepth fuel).run.run scene

/-- The first program of a library in which nothing has been done, and the modules that have
been analyzed for it, if it is accepted. -/
def ofEntry? (settings : Library.Settings) (file source : String) : Option Site :=
  match (Library.analyzeEntry settings file source).run.run Library.empty with
  | (.ok program, library) => some ⟨program, library.analyzed⟩
  | (.error _, _) => none

end Site

end StoneBoard
