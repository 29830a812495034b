import StoneBoard.Interface

/-!
# Type inference

Every expression gets the type that is known of it, in one pass over a routine.  What functions
return is found in rounds, each of which uses what the rounds before it found out.  The slots for
types are filled on the way, and two known types that disagree are an error.
-/

namespace StoneBoard

namespace Inference

abbrev Returns := Table (List Ty)

abbrev Variables := Table Ty

def mismatch (expected found : Ty) (span : Span) : Error :=
  .located (.typeMismatch expected.render found.render) span

def expect (expected found : Ty) (span : Span) : Except Error Unit :=
  if expected.compatible found then .ok () else .error (mismatch expected found span)

def variableType (locals : Variables) (name : String) : Ty :=
  (locals.get? name).getD .unknown

/-! ## Builtins -/

/-- What one argument tells about the type variable of a signature, of which `binding` is
known already. -/
def matchParameter (span : Span) (binding : Ty) (parameter : SignatureTy) (argument : Ty) :
    Except Error Ty :=
  let bind (bound : Ty) : Except Error Ty :=
    if binding.compatible bound then .ok (binding.unify bound)
    else .error (mismatch binding bound span)
  match parameter, argument with
  | .exact expected, found => do
      expect expected found span
      return binding
  | .variableTy, found => bind found
  | .listOfVariable, .list element => bind element
  | .listOfVariable, .unknown => bind .unknown
  | .listOfVariable, found => .error (mismatch (.list binding) found span)

def matchParameters (span : Span) (binding : Ty) :
    List SignatureTy → List Ty → Except Error Ty
  | parameter :: parameters, argument :: arguments => do
      let binding ← matchParameter span binding parameter argument
      matchParameters span binding parameters arguments
  | _, _ => .ok binding

/-- The type of a call of a builtin; nothing is known of other names. -/
def builtinType (name : String) (arguments : List Ty) (span : Span) : Except Error Ty :=
  match Builtin.ofName? name with
  | none => .ok .unknown
  | some builtin => do
      let signature := builtin.signature
      let binding ← matchParameters span .unknown signature.parameters arguments
      match signature.result with
      | some result => return result.instantiate binding
      | none => return .unknown

/-! ## Expressions -/

mutual

def inferExpr (returns : Returns) (locals : Variables) : Expr → Except Error (Expr × Ty)
  | .literal value span => .ok (.literal value span, value.ty)
  | .variableRef name span => .ok (.variableRef name span, variableType locals name)
  | .call name arguments span argumentTypes => do
      let (arguments, types) ← inferExprs returns locals arguments
      match returns.get? name with
      | some results =>
          return (.call name arguments span argumentTypes, results.headD .unknown)
      | none => do
          let slot :=
            if Builtin.isPolymorphicName name then types.mapM Ty.basic? else argumentTypes
          let ty ← builtinType name types span
          return (.call name arguments span slot, ty)
  | .binary op left right span => do
      let (left, leftType) ← inferExpr returns locals left
      let (right, rightType) ← inferExpr returns locals right
      let ty ← builtinType op.symbol [leftType, rightType] span
      return (.binary op left right span, ty)
  | .not operand span => do
      let (operand, operandType) ← inferExpr returns locals operand
      expect .bool operandType span
      return (.not operand span, .bool)
  | .negate operand span _ => do
      let (operand, operandType) ← inferExpr returns locals operand
      let ty ← builtinType Operation.negate.name [operandType] span
      return (.negate operand span operandType.basic?, ty)
  | .logical op left right span => do
      let (left, leftType) ← inferExpr returns locals left
      expect .bool leftType left.span
      let (right, rightType) ← inferExpr returns locals right
      expect .bool rightType right.span
      return (.logical op left right span, .bool)

def inferExprs (returns : Returns) (locals : Variables) :
    List Expr → Except Error (List Expr × List Ty)
  | [] => .ok ([], [])
  | first :: rest => do
      let (first, firstType) ← inferExpr returns locals first
      let (rest, restTypes) ← inferExprs returns locals rest
      return (first :: rest, firstType :: restTypes)

end

def inferCondition (returns : Returns) (locals : Variables) (condition : Expr) :
    Except Error Expr := do
  let (condition, ty) ← inferExpr returns locals condition
  expect .bool ty condition.span
  return condition

/-! ## Commands -/

structure Facts where
  locals : Variables
  /-- the types of the return command met last -/
  result : Option (List Ty)

namespace Facts

def bind (facts : Facts) (span : Span) (name : String) (ty : Ty) : Except Error Facts := do
  let current := variableType facts.locals name
  expect current ty span
  return { facts with locals := facts.locals.insert name (current.unify ty) }

/-- Learns that variables are given values of some types; nothing is known of values
beyond those. -/
def bindAll (facts : Facts) (span : Span) : List String → List Ty → Except Error Facts
  | [], _ => .ok facts
  | name :: names, types => do
      let facts ← facts.bind span name (types.headD .unknown)
      facts.bindAll span names types.tail

end Facts

def inferTuple (returns : Returns) (locals : Variables) :
    Expr → Except Error (Expr × List Ty)
  | .call name arguments span argumentTypes => do
      let (arguments, _) ← inferExprs returns locals arguments
      return (.call name arguments span argumentTypes, (returns.get? name).getD [])
  | other => do
      let (other, ty) ← inferExpr returns locals other
      return (other, [ty])

mutual

def inferStmt (returns : Returns) (facts : Facts) : Stmt → Except Error (Stmt × Facts)
  | .skip span => .ok (.skip span, facts)
  | .boom message span => .ok (.boom message span, facts)
  | .procedureCall name arguments span => do
      let (arguments, types) ← inferExprs returns facts.locals arguments
      let _ ← builtinType name types span
      return (.procedureCall name arguments span, facts)
  | .assign name value span => do
      let (value, ty) ← inferExpr returns facts.locals value
      let facts ← facts.bind span name ty
      return (.assign name value span, facts)
  | .tupleAssign names value span => do
      let (value, types) ← inferTuple returns facts.locals value
      let facts ← facts.bindAll span names types
      return (.tupleAssign names value span, facts)
  | .ifElse condition thenBranch elseBranch span => do
      let condition ← inferCondition returns facts.locals condition
      let (thenBranch, facts) ← inferBlock returns facts thenBranch
      let (elseBranch, facts) ← inferOptional returns facts elseBranch
      return (.ifElse condition thenBranch elseBranch span, facts)
  | .whileLoop condition body span => do
      let condition ← inferCondition returns facts.locals condition
      let (body, facts) ← inferBlock returns facts body
      return (.whileLoop condition body span, facts)
  | .repeatWith index lower upper body span _ => do
      let (lower, lowerType) ← inferExpr returns facts.locals lower
      let (upper, upperType) ← inferExpr returns facts.locals upper
      expect lowerType upperType upper.span
      let ty := lowerType.unify upperType
      let facts := { facts with locals := facts.locals.insert index ty }
      let (body, facts) ← inferBlock returns facts body
      return (.repeatWith index lower upper body span ty.basic?, facts)
  | .caseOf scrutinee branches fallback span => do
      let (scrutinee, ty) ← inferExpr returns facts.locals scrutinee
      let (branches, facts) ← inferBranches returns ty facts branches
      let (fallback, facts) ← inferOptional returns facts fallback
      return (.caseOf scrutinee branches fallback span, facts)
  | .block body span => do
      let (body, facts) ← inferBlock returns facts body
      return (.block body span, facts)
  | .returns values span _ => do
      let (values, types) ← inferExprs returns facts.locals values
      return (.returns values span (some types), { facts with result := some types })

def inferBlock (returns : Returns) (facts : Facts) :
    List Stmt → Except Error (List Stmt × Facts)
  | [] => .ok ([], facts)
  | first :: rest => do
      let (first, facts) ← inferStmt returns facts first
      let (rest, facts) ← inferBlock returns facts rest
      return (first :: rest, facts)

def inferOptional (returns : Returns) (facts : Facts) :
    Option (List Stmt) → Except Error (Option (List Stmt) × Facts)
  | none => .ok (none, facts)
  | some body => do
      let (body, facts) ← inferBlock returns facts body
      return (some body, facts)

def inferBranches (returns : Returns) (ty : Ty) (facts : Facts) :
    List Branch → Except Error (List Branch × Facts)
  | [] => .ok ([], facts)
  | .on literals body span :: rest => do
      literals.forM fun literal => expect ty literal.ty span
      let (body, facts) ← inferBlock returns facts body
      let (rest, facts) ← inferBranches returns ty facts rest
      return (.on literals body span :: rest, facts)

end

/-! ## Programs -/

def inferDefinition (returns : Returns) (definition : Definition) :
    Except Error (Definition × Option (List Ty)) := do
  let locals := definition.parameters.map fun name => (name, Ty.unknown)
  let (body, facts) ← inferBlock returns ⟨locals, none⟩ definition.body
  return ({ definition with body }, facts.result)

def inferRound (returns : Returns) :
    List Definition → Except Error (List Definition × Returns × Bool)
  | [] => .ok ([], returns, false)
  | first :: rest => do
      let (first, result) ← inferDefinition returns first
      let update := result.filter fun types => returns.get? first.name != some types
      let updated := match update with
        | some types => returns.insert first.name types
        | none => returns
      let (rest, returns, changed) ← inferRound updated rest
      return (first :: rest, returns, update.isSome || changed)

/-- Rounds until nothing changes, as many as `rounds` at most. -/
def inferRounds (returns : Returns) (definitions : List Definition) :
    (rounds : Nat) → Except Error (List Definition × Returns)
  | 0 => .ok (definitions, returns)
  | rounds + 1 => do
      let (definitions, returns, changed) ← inferRound returns definitions
      if changed then inferRounds returns definitions rounds
      else return (definitions, returns)

/-- What is known before the first round: the results of imported functions, and how many
values every definition returns. -/
def initialReturns (imported : Interface) (definitions : List Definition) : Returns :=
  let functions := imported.filter fun entry => entry.2.kind == .function
  let known : Returns := functions.map fun entry => (entry.1, entry.2.returns)
  definitions.foldl (fun returns definition =>
    match definition.returnCount? with
    | some count => returns.insert definition.name (List.replicate count .unknown)
    | none => returns) known

def inferProgram (imported : Interface) (program : Program) :
    Except Error (Program × Returns) := do
  let start := initialReturns imported program.definitions
  let rounds := program.definitions.length + 2
  let (definitions, returns) ← inferRounds start program.definitions rounds
  let functions := definitions.filter fun definition => definition.kind == .function
  let results := functions.filterMap fun definition =>
    (returns.get? definition.name).map fun types => (definition.name, types)
  return ({ program with definitions }, results.eraseDups)

end Inference

end StoneBoard
