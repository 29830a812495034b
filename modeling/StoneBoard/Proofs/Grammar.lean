import StoneBoard.Program
import StoneBoard.Token

/-!
# The grammar

Which sequences of tokens are programs, and the syntax tree of each of them.  Expressions
come in layers, one for every strength of operators: an operand in a layer may be anything
of a tighter layer, and anything at all in parentheses.  The trees have no places.
-/

namespace StoneBoard

/-! ## Trees without places -/

namespace Expr

mutual

def unplaced : Expr → Expr
  | .literal value _ => .literal value .nowhere
  | .variableRef name _ => .variableRef name .nowhere
  | .call name arguments _ types => .call name (unplacedAll arguments) .nowhere types
  | .binary op left right _ => .binary op left.unplaced right.unplaced .nowhere
  | .not operand _ => .not operand.unplaced .nowhere
  | .negate operand _ type => .negate operand.unplaced .nowhere type
  | .logical op left right _ => .logical op left.unplaced right.unplaced .nowhere

def unplacedAll : List Expr → List Expr
  | [] => []
  | first :: rest => first.unplaced :: unplacedAll rest

end

theorem unplaced_listOf (items : List Expr) (span : Span) :
    (listOf items span).unplaced = listOf (unplacedAll items) .nowhere := by
  induction items with
  | nil => rfl
  | cons first rest ih =>
    rw [unplacedAll, listOf, List.foldr_cons, ← listOf, unplaced, unplacedAll, unplacedAll, ih]
    rfl

end Expr

namespace Stmt

mutual

def unplaced : Stmt → Stmt
  | .skip _ => .skip .nowhere
  | .boom message _ => .boom message .nowhere
  | .procedureCall name arguments _ => .procedureCall name (Expr.unplacedAll arguments) .nowhere
  | .assign name value _ => .assign name value.unplaced .nowhere
  | .tupleAssign names value _ => .tupleAssign names value.unplaced .nowhere
  | .ifElse condition thenBranch elseBranch _ =>
      .ifElse condition.unplaced (unplacedAll thenBranch) (unplacedOptional elseBranch) .nowhere
  | .whileLoop condition body _ => .whileLoop condition.unplaced (unplacedAll body) .nowhere
  | .repeatWith index lower upper body _ type =>
      .repeatWith index lower.unplaced upper.unplaced (unplacedAll body) .nowhere type
  | .caseOf scrutinee branches fallback _ =>
      .caseOf scrutinee.unplaced (unplacedBranches branches) (unplacedOptional fallback) .nowhere
  | .block body _ => .block (unplacedAll body) .nowhere
  | .returns values _ types => .returns (Expr.unplacedAll values) .nowhere types

def unplacedAll : List Stmt → List Stmt
  | [] => []
  | first :: rest => first.unplaced :: unplacedAll rest

def unplacedOptional : Option (List Stmt) → Option (List Stmt)
  | none => none
  | some body => some (unplacedAll body)

def unplacedBranches : List Branch → List Branch
  | [] => []
  | .on literals body _ :: rest => .on literals (unplacedAll body) .nowhere :: unplacedBranches rest

end

theorem unplacedBranches_eq_nil {branches : List Branch} :
    unplacedBranches branches = [] ↔ branches = [] := by
  obtain _ | ⟨⟨_, _, _⟩, _⟩ := branches <;> simp [unplacedBranches]

theorem unplacedOptional_eq_none {body : Option (List Stmt)} :
    unplacedOptional body = none ↔ body = none := by
  cases body <;> simp [unplacedOptional]

end Stmt

def Definition.unplaced (definition : Definition) : Definition :=
  { definition with body := Stmt.unplacedAll definition.body, span := .nowhere }

def Import.unplaced (declaration : Import) : Import :=
  { declaration with
    names := declaration.names.map fun entry => (entry.1, .nowhere)
    span := .nowhere }

def Program.unplaced (program : Program) : Program where
  imports := program.imports.map Import.unplaced
  definitions := program.definitions.map Definition.unplaced

/-! ## Layers -/

/-- The layers of expressions, from those whose operators bind weakest. -/
inductive Layer where
  | disjunction | conjunction | negation | comparison | sum | product | signed | power | atom
deriving DecidableEq, Repr

namespace Layer

def next : Layer → Layer
  | disjunction => conjunction
  | conjunction => negation
  | negation => comparison
  | comparison => sum
  | sum => product
  | product => signed
  | signed => power
  | power => atom
  | atom => atom

def strength : Layer → Nat
  | disjunction => 0
  | conjunction => 1
  | negation => 2
  | comparison => 3
  | sum => 4
  | product => 5
  | signed => 6
  | power => 7
  | atom => 8

end Layer

namespace BinaryOp

def token : BinaryOp → TokenKind
  | add => .mark .plus
  | subtract => .mark .minus
  | multiply => .mark .star
  | power => .mark .caret
  | div => .keyword .div
  | mod => .keyword .mod
  | equal => .mark .equal
  | notEqual => .mark .notEqual
  | less => .mark .less
  | lessEqual => .mark .lessEqual
  | greater => .mark .greater
  | greaterEqual => .mark .greaterEqual

theorem token_ne_endOfInput (op : BinaryOp) : op.token ≠ .endOfInput := by
  cases op <;> decide

def layer : BinaryOp → Layer
  | add | subtract => .sum
  | multiply | div | mod => .product
  | power => .power
  | equal | notEqual | less | lessEqual | greater | greaterEqual => .comparison

/-- The layer of left operands.  Sums and products group to the left. -/
def leftLayer (op : BinaryOp) : Layer :=
  match op.layer with
  | .sum => .sum
  | .product => .product
  | other => other.next

/-- The layer of right operands.  An exponent may have a sign. -/
def rightLayer (op : BinaryOp) : Layer :=
  match op.layer with
  | .power => .signed
  | other => other.next

end BinaryOp

namespace LogicalOp

def token : LogicalOp → TokenKind
  | and => .mark .and
  | or => .mark .or

theorem token_ne_endOfInput (op : LogicalOp) : op.token ≠ .endOfInput := by
  cases op <;> decide

def layer : LogicalOp → Layer
  | and => .conjunction
  | or => .disjunction

end LogicalOp

namespace Grammar

variable {kinds : List TokenKind}
variable {α : Type} {item : List TokenKind → α → Prop} {values : List α}

/-! ## Expressions -/

def parenthesized (kinds : List TokenKind) : List TokenKind :=
  .mark .leftParen :: (kinds ++ [.mark .rightParen])

def bracketed (kinds : List TokenKind) : List TokenKind :=
  .mark .leftBracket :: (kinds ++ [.mark .rightBracket])

def braced (kinds : List TokenKind) : List TokenKind :=
  .mark .leftBrace :: (kinds ++ [.mark .rightBrace])

inductive Listed {α : Type} (item : List TokenKind → α → Prop) : List TokenKind → List α → Prop
  | one {kinds : List TokenKind} {value : α} (only : item kinds value) :
      Listed item kinds [value]
  | more {kinds others : List TokenKind} {value : α} {values : List α} (first : item kinds value)
      (rest : Listed item others values) :
      Listed item (kinds ++ .mark .comma :: others) (value :: values)

inductive MaybeListed {α : Type} (item : List TokenKind → α → Prop) :
    List TokenKind → List α → Prop
  | none : MaybeListed item [] []
  | some {kinds : List TokenKind} {values : List α} (listed : Listed item kinds values) :
      MaybeListed item kinds values

inductive Expression : Layer → List TokenKind → Expr → Prop
  | tighter {layer : Layer} {kinds : List TokenKind} {expr : Expr}
      (inner : Expression layer.next kinds expr) : Expression layer kinds expr
  | logical (op : LogicalOp) {lefts rights : List TokenKind} {left right : Expr}
      (first : Expression op.layer.next lefts left) (second : Expression op.layer rights right) :
      Expression op.layer (lefts ++ op.token :: rights) (.logical op left right .nowhere)
  | not {kinds : List TokenKind} {operand : Expr} (inner : Expression .negation kinds operand) :
      Expression .negation (.keyword .not :: kinds) (.not operand .nowhere)
  | binary (op : BinaryOp) {lefts rights : List TokenKind} {left right : Expr}
      (first : Expression op.leftLayer lefts left)
      (second : Expression op.rightLayer rights right) :
      Expression op.layer (lefts ++ op.token :: rights) (.binary op left right .nowhere)
  | negate {kinds : List TokenKind} {operand : Expr} (inner : Expression .signed kinds operand) :
      Expression .signed (.mark .minus :: kinds) (.negate operand .nowhere none)
  | number (value : Nat) : Expression .atom [.number value] (.literal (.int value) .nowhere)
  | constant {name : String} {value : Value} (known : Value.constant? name = some value) :
      Expression .atom [.upper name] (.literal value .nowhere)
  | variableRef (name : String) : Expression .atom [.lower name] (.variableRef name .nowhere)
  | call (name : String) {kinds : List TokenKind} {arguments : List Expr}
      (given : MaybeListed (Expression .disjunction) kinds arguments) :
      Expression .atom (.lower name :: parenthesized kinds) (.call name arguments .nowhere none)
  | enclosed {kinds : List TokenKind} {expr : Expr} (inner : Expression .disjunction kinds expr) :
      Expression .atom (parenthesized kinds) expr
  /-- a list stands for the calls that build it -/
  | list {kinds : List TokenKind} {items : List Expr}
      (given : MaybeListed (Expression .disjunction) kinds items) :
      Expression .atom (bracketed kinds) (.listOf items .nowhere)

abbrev AnyExpression : List TokenKind → Expr → Prop := Expression .disjunction

abbrev Arguments : List TokenKind → List Expr → Prop := MaybeListed AnyExpression

/-! ## Commands -/

inductive VariableName : List TokenKind → String → Prop
  | intro (name : String) : VariableName [.lower name] name

inductive Literal : List TokenKind → Value → Prop
  | number (value : Nat) : Literal [.number value] (.int value)
  | negative (value : Nat) : Literal [.mark .minus, .number value] (.int (-value))
  | constant {name : String} {value : Value} (known : Value.constant? name = some value) :
      Literal [.upper name] value

mutual

inductive Command : List TokenKind → Stmt → Prop
  | skip : Command [.keyword .skip] (.skip .nowhere)
  | boom (message : String) :
      Command (.keyword .boom :: parenthesized [.string message]) (.boom message .nowhere)
  | returns {kinds : List TokenKind} {values : List Expr} (given : Arguments kinds values) :
      Command (.keyword .returnWord :: parenthesized kinds) (.returns values .nowhere none)
  | procedureCall (name : String) {kinds : List TokenKind} {values : List Expr}
      (given : Arguments kinds values) :
      Command (.upper name :: parenthesized kinds) (.procedureCall name values .nowhere)
  | assign (name : String) {kinds : List TokenKind} {value : Expr}
      (assigned : AnyExpression kinds value) :
      Command (.lower name :: .mark .assign :: kinds) (.assign name value .nowhere)
  | tupleAssign {targets kinds : List TokenKind} {names : List String} {value : Expr}
      (listed : Listed VariableName targets names) (assigned : AnyExpression kinds value) :
      Command (parenthesized targets ++ .mark .assign :: kinds) (.tupleAssign names value .nowhere)
  | ifElse {conditions inside others : List TokenKind} {condition : Expr} {body : List Stmt}
      {other : Option (List Stmt)} (tested : AnyExpression conditions condition)
      (commands : Commands inside body) (alternative : Alternative others other) :
      Command (.keyword .ifWord :: (conditions ++ braced inside ++ others))
        (.ifElse condition body other .nowhere)
  | whileLoop {conditions inside : List TokenKind} {condition : Expr} {body : List Stmt}
      (tested : AnyExpression conditions condition) (commands : Commands inside body) :
      Command (.keyword .whileWord :: (conditions ++ braced inside))
        (.whileLoop condition body .nowhere)
  | repeatWith (index : String) {lowers uppers inside : List TokenKind} {lower upper : Expr}
      {body : List Stmt} (first : AnyExpression lowers lower) (last : AnyExpression uppers upper)
      (commands : Commands inside body) :
      Command (.keyword .repeatWith :: .lower index :: .keyword .inWord ::
          (lowers ++ .mark .dots :: (uppers ++ braced inside)))
        (.repeatWith index lower upper body .nowhere none)
  /-- at least one value has a branch, or there is one for all of them -/
  | caseOf {scrutinees choices others : List TokenKind} {scrutinee : Expr}
      {branches : List Branch} {fallback : Option (List Stmt)}
      (examined : AnyExpression scrutinees scrutinee) (chosen : Branches choices branches)
      (otherwise : Fallback others fallback) (some : branches ≠ [] ∨ fallback ≠ none) :
      Command (.keyword .case :: (scrutinees ++ .keyword .of :: (choices ++ others)))
        (.caseOf scrutinee branches fallback .nowhere)
  | block {inside : List TokenKind} {body : List Stmt} (commands : Commands inside body) :
      Command (braced inside) (.block body .nowhere)

inductive Commands : List TokenKind → List Stmt → Prop
  | nil : Commands [] []
  | cons {kinds others : List TokenKind} {first : Stmt} {rest : List Stmt}
      (command : Command kinds first) (semicolons : Nat) (commands : Commands others rest) :
      Commands (kinds ++ List.replicate semicolons (.mark .semicolon) ++ others) (first :: rest)

/-- The other branch of a choice, if there is one.  It may be a choice of its own. -/
inductive Alternative : List TokenKind → Option (List Stmt) → Prop
  | none : Alternative [] none
  | block {inside : List TokenKind} {body : List Stmt} (commands : Commands inside body) :
      Alternative (.keyword .elseWord :: braced inside) (some body)
  | choice {kinds : List TokenKind} {condition : Expr} {body : List Stmt}
      {other : Option (List Stmt)}
      (command : Command kinds (.ifElse condition body other .nowhere)) :
      Alternative (.keyword .elseWord :: kinds) (some [.ifElse condition body other .nowhere])

inductive Branches : List TokenKind → List Branch → Prop
  | nil : Branches [] []
  | cons {kinds inside others : List TokenKind} {literals : List Value} {body : List Stmt}
      {rest : List Branch} (listed : Listed Literal kinds literals)
      (commands : Commands inside body) (branches : Branches others rest) :
      Branches (kinds ++ .mark .arrow :: (braced inside ++ others))
        (.on literals body .nowhere :: rest)

inductive Fallback : List TokenKind → Option (List Stmt) → Prop
  | none : Fallback [] none
  | some {inside : List TokenKind} {body : List Stmt} (commands : Commands inside body) :
      Fallback (.mark .underscore :: .mark .arrow :: braced inside) (some body)

end

/-! ## Programs -/

def routineName : RoutineKind → String → TokenKind
  | .procedure => .upper
  | .function => .lower

def routineWord : RoutineKind → TokenKind
  | .procedure => .keyword .procedure
  | .function => .keyword .function

inductive Routine : List TokenKind → Definition → Prop
  | intro (kind : RoutineKind) (name : String) {kinds inside : List TokenKind}
      {parameters : List String} {body : List Stmt}
      (listed : MaybeListed VariableName kinds parameters) (commands : Commands inside body) :
      Routine (routineWord kind :: routineName kind name :: (parenthesized kinds ++ braced inside))
        ⟨kind, name, parameters, body, .nowhere⟩

inductive ImportedName : List TokenKind → String × Span → Prop
  | upper (name : String) : ImportedName [.upper name] (name, .nowhere)
  | lower (name : String) : ImportedName [.lower name] (name, .nowhere)

inductive Declaration : List TokenKind → Import → Prop
  | intro (source : String) {kinds : List TokenKind} {names : List (String × Span)}
      (listed : Listed ImportedName kinds names) (semicolon : Bool) :
      Declaration (.keyword .fromWord :: .upper source :: .keyword .importWord ::
          (parenthesized kinds ++ if semicolon then [.mark .semicolon] else []))
        ⟨source, names, .nowhere⟩

inductive Sequence {α : Type} (item : List TokenKind → α → Prop) :
    List TokenKind → List α → Prop
  | nil : Sequence item [] []
  | cons {kinds others : List TokenKind} {value : α} {values : List α} (first : item kinds value)
      (rest : Sequence item others values) : Sequence item (kinds ++ others) (value :: values)

inductive WholeProgram : List TokenKind → Program → Prop
  | intro {declared defined : List TokenKind} {imports : List Import}
      {definitions : List Definition} (first : Sequence Declaration declared imports)
      (second : Sequence Routine defined definitions) :
      WholeProgram (declared ++ defined) ⟨imports, definitions⟩

/-! ## The end of the input -/

-- Nothing in the grammar mentions the end of the input, so each case follows from its parts.
theorem Expression.no_end {layer : Layer} {expr : Expr} (derived : Expression layer kinds expr) :
    .endOfInput ∉ kinds := by
  refine @Expression.rec (fun _ kinds _ _ => .endOfInput ∉ kinds)
    (fun kinds _ _ => .endOfInput ∉ kinds) (fun kinds _ _ => .endOfInput ∉ kinds)
    ?_ ?_ ?_ ?_ ?_ ?_ ?_ ?_ ?_ ?_ ?_ ?_ ?_ ?_ ?_ layer kinds expr derived
  all_goals
    intros
    simp_all [parenthesized, bracketed, (BinaryOp.token_ne_endOfInput _).symm,
      (LogicalOp.token_ne_endOfInput _).symm]

theorem Listed.no_end (no_end : ∀ {kinds value}, item kinds value → .endOfInput ∉ kinds)
    (listed : Listed item kinds values) : .endOfInput ∉ kinds := by
  induction listed with
  | one only => exact no_end only
  | more first _ ih => simp [no_end first, ih]

theorem MaybeListed.no_end (no_end : ∀ {kinds value}, item kinds value → .endOfInput ∉ kinds)
    (listed : MaybeListed item kinds values) : .endOfInput ∉ kinds := by
  cases listed with
  | none => simp
  | some listed => exact listed.no_end no_end

theorem Sequence.no_end (no_end : ∀ {kinds value}, item kinds value → .endOfInput ∉ kinds)
    (sequence : Sequence item kinds values) : .endOfInput ∉ kinds := by
  induction sequence with
  | nil => simp
  | cons first _ ih => simp [no_end first, ih]

theorem Arguments.no_end {values : List Expr} (given : Arguments kinds values) :
    .endOfInput ∉ kinds :=
  MaybeListed.no_end Expression.no_end given

theorem VariableName.no_end {name : String} (named : VariableName kinds name) :
    .endOfInput ∉ kinds := by
  cases named
  simp

theorem Literal.no_end {value : Value} (written : Literal kinds value) : .endOfInput ∉ kinds := by
  cases written <;> simp

theorem Commands.no_end {body : List Stmt} (derived : Commands kinds body) :
    .endOfInput ∉ kinds := by
  refine @Commands.rec (fun kinds _ _ => .endOfInput ∉ kinds) (fun kinds _ _ => .endOfInput ∉ kinds)
    (fun kinds _ _ => .endOfInput ∉ kinds) (fun kinds _ _ => .endOfInput ∉ kinds)
    (fun kinds _ _ => .endOfInput ∉ kinds)
    ?_ ?_ ?_ ?_ ?_ ?_ ?_ ?_ ?_ ?_ ?_ ?_ ?_ ?_ ?_ ?_ ?_ ?_ ?_ ?_ kinds body derived
  all_goals
    intros
    grind [parenthesized, braced, Expression.no_end, Arguments.no_end, Listed.no_end,
      VariableName.no_end, Literal.no_end]

theorem Routine.no_end {defn : Definition} (derived : Routine kinds defn) :
    .endOfInput ∉ kinds := by
  obtain ⟨kind, name, listed, commands⟩ := derived
  cases kind <;> simp [parenthesized, braced, routineWord, routineName,
    listed.no_end VariableName.no_end, commands.no_end]

theorem ImportedName.no_end {entry : String × Span} (named : ImportedName kinds entry) :
    .endOfInput ∉ kinds := by
  cases named <;> simp

theorem Declaration.no_end {decl : Import} (derived : Declaration kinds decl) :
    .endOfInput ∉ kinds := by
  obtain ⟨src, listed, semicolon⟩ := derived
  cases semicolon <;> simp [parenthesized, listed.no_end ImportedName.no_end]

theorem WholeProgram.no_end {prog : Program} (derived : WholeProgram kinds prog) :
    .endOfInput ∉ kinds := by
  obtain ⟨imports, defns⟩ := derived
  simp [imports.no_end Declaration.no_end, defns.no_end Routine.no_end]

end Grammar

end StoneBoard
