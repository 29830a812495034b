import StoneBoard.Interface

/-!
# Semantic checks

The rules beyond the grammar.  Definitions are well shaped, every call names a routine of the
right kind with the right number of arguments, and neither parameters nor loop indices are
assigned.
-/

namespace StoneBoard

inductive Violation where
  | importsMain
  | importedTwice (name : String)
  | notExported (source name : String)
  | emptyProgram
  | definesBuiltin (kind : RoutineKind) (name : String)
  | definedTwice (kind : RoutineKind) (name : String)
  | noMain
  | mainNotProcedure
  | mainNotLast
  | mainHasParameters
  | repeatedParameter (kind : RoutineKind) (routine parameter : String)
  | mainReturnsValue
  | procedureReturns (routine : String)
  | emptyFunction (routine : String)
  | noReturn (routine : String)
  | emptyReturn (routine : String)
  | wrongKind (name : String) (wanted : RoutineKind)
  | argumentCount (kind : RoutineKind) (name : String) (expected received : Nat)
  | assignsIndex (name : String)
  | assignsParameter (name : String)
  | repeatedTarget (name : String)
  | tupleWithoutCall
  | tupleSize (function : String) (returned expected : Nat)
  | sameNestedIndex (index : String)
  | indexIsParameter (index : String)
  | indexIsVariable (index : String)
  | repeatedLiteral
  | returnNotLast
  | notOneValue (function : String) (returned : Nat)
deriving DecidableEq, Repr

namespace Violation

def message : Violation → String
  | importsMain => "cannot import the Main procedure"
  | importedTwice name => s!"\"{name}\" was already imported"
  | notExported source name => s!"module {source} does not define \"{name}\""
  | emptyProgram => "empty program"
  | definesBuiltin kind name => s!"cannot define {kind.name} \"{name}\": it is a builtin"
  | definedTwice kind name => s!"cannot define {kind.name} \"{name}\": it is already defined"
  | noMain => "there should be a Main procedure"
  | mainNotProcedure => "Main should be a procedure"
  | mainNotLast => "the Main procedure should be the last definition"
  | mainHasParameters => "Main procedure cannot have parameters"
  | repeatedParameter kind routine parameter =>
      s!"{kind.name} \"{routine}\" has a repeated parameter: \"{parameter}\""
  | mainReturnsValue => "Main procedure should only return variables"
  | procedureReturns routine => s!"procedure \"{routine}\" should not have a return"
  | emptyFunction routine => s!"function body of \"{routine}\" cannot be empty"
  | noReturn routine => s!"function \"{routine}\" should have a return"
  | emptyReturn routine => s!"return from function \"{routine}\" must return something"
  | wrongKind name wanted => s!"\"{name}\" is not a {wanted.name}"
  | argumentCount kind name expected received =>
      let tooMany := if expected < received then "many" else "few"
      s!"too {tooMany} arguments for {kind.name} \"{name}\": " ++
        s!"expected {expected}, received {received}"
  | assignsIndex name => s!"cannot modify \"{name}\": index of a repeatWith is immutable"
  | assignsParameter name => s!"cannot modify \"{name}\": parameter is immutable"
  | repeatedTarget name => s!"repeated variable in assignment: \"{name}\""
  | tupleWithoutCall => "a tuple assignment needs a function call on the right"
  | tupleSize function returned expected =>
      s!"function \"{function}\" returns {returned} value(s), {expected} are expected"
  | sameNestedIndex index => s!"nested repeatWith's cannot have the same index: \"{index}\""
  | indexIsParameter index => s!"index of a repeatWith cannot be a parameter: \"{index}\""
  | indexIsVariable index => s!"index of a repeatWith cannot be a variable: \"{index}\""
  | repeatedLiteral => "literals in a case should be disjoint"
  | returnNotLast => "return can only be the last command of a routine"
  | notOneValue function returned =>
      s!"function \"{function}\" returns {returned} values, one value is expected"

def located (violation : Violation) (span : Span) : Error :=
  .located (.semantic violation.message) span

end Violation

namespace Check

abbrev Checked := Except Error

def violate {α : Type} (violation : Violation) (span : Span) : Checked α :=
  .error (violation.located span)

def require (condition : Bool) (violation : Violation) (span : Span) : Checked Unit :=
  if condition then .ok () else violate violation span

/-! ## Imports -/

def importName (source : String) (interface imported : Interface) (name : String × Span) :
    Checked Interface := do
  let (name, span) := name
  require (name != "Main") .importsMain span
  require (!imported.contains name) (.importedTwice name) span
  match interface.get? name with
  | some info => return (name, info) :: imported
  | none => violate (.notExported source name) span

def importNames (interface imported : Interface) (declaration : Import) :
    Checked Interface :=
  declaration.names.foldlM (importName declaration.source interface) imported

/-! ## Calls -/

structure Environment where
  locals : Interface
  imported : Interface

namespace Environment

/-- What a name stands for: a local routine, an imported one, or a builtin. -/
def lookup? (environment : Environment) (name : String) : Option RoutineInfo :=
  (environment.locals.get? name).or
    ((environment.imported.get? name).or ((Builtin.ofName? name).map Builtin.info))

def resolve (environment : Environment) (kind : RoutineKind) (name : String)
    (argumentCount : Nat) (span : Span) : Checked RoutineInfo :=
  match environment.lookup? name with
  | none => .error (.located (.unknownRoutine name) span)
  | some info => do
      require (info.kind == kind) (.wrongKind name kind) span
      require (info.arity == argumentCount)
        (.argumentCount kind name info.arity argumentCount) span
      return info

end Environment

mutual

def checkExpr (environment : Environment) : Expr → Checked Unit
  | .literal _ _ => .ok ()
  | .variableRef _ _ => .ok ()
  | .call name arguments span _ => do
      let info ← environment.resolve .function name arguments.length span
      require (info.returns.length == 1) (.notOneValue name info.returns.length) span
      checkExprs environment arguments
  | .binary _ left right _ => do
      checkExpr environment left
      checkExpr environment right
  | .logical _ left right _ => do
      checkExpr environment left
      checkExpr environment right
  | .not operand _ => checkExpr environment operand
  | .negate operand _ _ => checkExpr environment operand

def checkExprs (environment : Environment) : List Expr → Checked Unit
  | [] => .ok ()
  | first :: rest => do
      checkExpr environment first
      checkExprs environment rest

end

/-! ## Commands -/

/-- What a command needs to know about its place: the routine, and the indices of the
loops around it. -/
structure Scope where
  environment : Environment
  definition : Definition
  indices : List String

namespace Scope

def within (scope : Scope) (index : String) : Scope :=
  { scope with indices := index :: scope.indices }

def checkAssignable (scope : Scope) (span : Span) (name : String) : Checked Unit := do
  require (!scope.indices.contains name) (.assignsIndex name) span
  require (!scope.definition.parameters.contains name) (.assignsParameter name) span

def checkTargets (scope : Scope) (span : Span) (earlier : List String) :
    List String → Checked Unit
  | [] => .ok ()
  | name :: rest => do
      require (!earlier.contains name) (.repeatedTarget name) span
      scope.checkAssignable span name
      scope.checkTargets span (name :: earlier) rest

/-- Checks that a name may be the index of a loop, given the variables assigned before. -/
def checkIndex (scope : Scope) (assigned : List String) (span : Span) (index : String) :
    Checked Unit := do
  require (!scope.indices.contains index) (.sameNestedIndex index) span
  require (!scope.definition.parameters.contains index) (.indexIsParameter index) span
  require (!assigned.contains index) (.indexIsVariable index) span

def checkTuple (scope : Scope) (names : List String) (value : Expr) (span : Span) :
    Checked Unit := do
  scope.checkTargets span [] names
  match value with
  | .call function arguments callSpan _ => do
      let info ← scope.environment.resolve .function function arguments.length callSpan
      require (info.returns.length == names.length)
        (.tupleSize function info.returns.length names.length) callSpan
      checkExprs scope.environment arguments
  | other => violate .tupleWithoutCall other.span

end Scope

def addLiterals (span : Span) (seen : List Value) : List Value → Checked (List Value)
  | [] => .ok seen
  | literal :: rest => do
      require (!seen.contains literal) .repeatedLiteral span
      addLiterals span (literal :: seen) rest

mutual

/-- Checks a command.  Takes and returns the names assigned so far; `isLast` tells the
last command of the routine from all others. -/
def checkStmt (scope : Scope) (isLast : Bool) (assigned : List String) :
    Stmt → Checked (List String)
  | .skip _ => .ok assigned
  | .boom _ _ => .ok assigned
  | .procedureCall name arguments span => do
      let _ ← scope.environment.resolve .procedure name arguments.length span
      checkExprs scope.environment arguments
      return assigned
  | .assign name value span => do
      scope.checkAssignable span name
      checkExpr scope.environment value
      return name :: assigned
  | .tupleAssign names value span => do
      scope.checkTuple names value span
      return names ++ assigned
  | .ifElse condition thenBranch elseBranch _ => do
      checkExpr scope.environment condition
      let assigned ← checkBlock scope assigned thenBranch
      checkOptional scope assigned elseBranch
  | .whileLoop condition body _ => do
      checkExpr scope.environment condition
      checkBlock scope assigned body
  | .repeatWith index lower upper body span _ => do
      scope.checkIndex assigned span index
      checkExpr scope.environment lower
      checkExpr scope.environment upper
      checkBlock (scope.within index) assigned body
  | .caseOf scrutinee branches fallback _ => do
      checkExpr scope.environment scrutinee
      let assigned ← checkBranches scope [] assigned branches
      checkOptional scope assigned fallback
  | .block body _ => checkBlock scope assigned body
  | .returns values span _ => do
      require isLast .returnNotLast span
      let mayReturn := scope.definition.kind == .function || scope.definition.isMain
      require mayReturn (.procedureReturns scope.definition.name) span
      checkExprs scope.environment values
      return assigned

def checkBlock (scope : Scope) (assigned : List String) : List Stmt → Checked (List String)
  | [] => .ok assigned
  | first :: rest => do
      let assigned ← checkStmt scope false assigned first
      checkBlock scope assigned rest

def checkOptional (scope : Scope) (assigned : List String) :
    Option (List Stmt) → Checked (List String)
  | none => .ok assigned
  | some body => checkBlock scope assigned body

def checkBranches (scope : Scope) (seen : List Value) (assigned : List String) :
    List Branch → Checked (List String)
  | [] => .ok assigned
  | .on literals body span :: rest => do
      let seen ← addLiterals span seen literals
      let assigned ← checkBlock scope assigned body
      checkBranches scope seen assigned rest

end

def checkBody (scope : Scope) (assigned : List String) : List Stmt → Checked Unit
  | [] => .ok ()
  | first :: rest => do
      let assigned ← checkStmt scope rest.isEmpty assigned first
      checkBody scope assigned rest

/-! ## Definitions -/

def checkParameters (definition : Definition) (earlier : List String) :
    List String → Checked Unit
  | [] => .ok ()
  | parameter :: rest => do
      require (!earlier.contains parameter)
        (.repeatedParameter definition.kind definition.name parameter) definition.span
      checkParameters definition (parameter :: earlier) rest

def isVariable : Expr → Bool
  | .variableRef _ _ => true
  | _ => false

def checkReturn (definition : Definition) : Checked Unit :=
  match definition.kind, definition.finalReturn? with
  | .procedure, some (.returns values span _) =>
      if definition.name == "Main" then
        require (values.all isVariable) .mainReturnsValue span
      else violate (.procedureReturns definition.name) span
  | .procedure, _ => .ok ()
  | .function, some (.returns values span _) =>
      require (!values.isEmpty) (.emptyReturn definition.name) span
  | .function, _ =>
      if definition.body.isEmpty then violate (.emptyFunction definition.name) definition.span
      else violate (.noReturn definition.name) definition.span

def checkDefinition (environment : Environment) (definition : Definition) :
    Checked Unit := do
  checkParameters definition [] definition.parameters
  checkReturn definition
  checkBody ⟨environment, definition, []⟩ [] definition.body

/-- Adds a definition to the local routines, whose names differ from each other, from the
imported ones and from the builtin ones. -/
def declare (imported locals : Interface) (definition : Definition) : Checked Interface := do
  let reserved := Builtin.isDefined definition.name ||
    (Value.constant? definition.name).isSome
  require (!reserved) (.definesBuiltin definition.kind definition.name) definition.span
  let taken := locals.contains definition.name || imported.contains definition.name
  require (!taken) (.definedTwice definition.kind definition.name) definition.span
  return (definition.name, definition.info) :: locals

def checkMain (program : Program) : Checked Unit :=
  match program.definition? "Main" with
  | none => violate .noMain .nowhere
  | some main => do
      require (main.kind == .procedure) .mainNotProcedure main.span
      let lastName := program.definitions.getLast?.map Definition.name
      require (lastName == some "Main") .mainNotLast main.span
      require main.parameters.isEmpty .mainHasParameters main.span

/-- Checks the definitions of a module, given what it imports; `entry` tells the program
that is started from the modules that it uses. -/
def checkDefinitions (entry : Bool) (imported : Interface) (program : Program) :
    Checked Unit := do
  if entry then
    require (!program.definitions.isEmpty) .emptyProgram .nowhere
  let locals ← program.definitions.foldlM (declare imported) []
  if entry then
    checkMain program
  program.definitions.forM (checkDefinition ⟨locals, imported⟩)

end Check

end StoneBoard
