import StoneBoard.Proofs.Grammar
import StoneBoard.Text.Capital

/-!
# Programs as tokens

A program is written as tokens, with parentheses around an operand only where its layer is
too weak for its position, and with a semicolon after every command.
-/

namespace StoneBoard

/-! ## Writing -/

namespace Grammar

def separated : List (List TokenKind) → List TokenKind
  | [] => []
  | [only] => only
  | first :: second :: rest => first ++ .mark .comma :: separated (second :: rest)

/-- An expression at a position; it is put in parentheses if its own layer is too weak. -/
def placedIn (position own : Layer) (kinds : List TokenKind) : List TokenKind :=
  if own.strength < position.strength then parenthesized kinds else kinds

end Grammar

open Grammar

namespace Value

def written : Value → List TokenKind
  | .int number =>
      if number < 0 then [.mark .minus, .number (-number).toNat] else [.number number.toNat]
  | value => [.upper value.render]

/-- The values that branches of cases can name. -/
def IsLiteral : Value → Prop
  | .list _ => False
  | _ => True

/-- The values that expressions can name.  A sign would be an operator. -/
def IsAtom : Value → Prop
  | .int number => 0 ≤ number
  | .list _ => False
  | _ => True

end Value

namespace Expr

def layer : Expr → Layer
  | literal .. | variableRef .. | call .. => .atom
  | binary op .. => op.layer
  | not .. => .negation
  | negate .. => .signed
  | logical op .. => op.layer

mutual

def written : Expr → List TokenKind
  | .literal value _ => value.written
  | .variableRef name _ => [.lower name]
  | .call name arguments _ _ => .lower name :: parenthesized (separated (writtenEach arguments))
  | .binary op left right _ =>
      placedIn op.leftLayer left.layer left.written ++
        op.token :: placedIn op.rightLayer right.layer right.written
  | .not operand _ => .keyword .not :: placedIn .negation operand.layer operand.written
  | .negate operand _ _ => .mark .minus :: placedIn .signed operand.layer operand.written
  | .logical op left right _ =>
      placedIn op.layer.next left.layer left.written ++
        op.token :: placedIn op.layer right.layer right.written

def writtenEach : List Expr → List (List TokenKind)
  | [] => []
  | first :: rest => first.written :: writtenEach rest

end

mutual

/-- Expressions as they are before any type has been inferred, with literals that can be
written. -/
def Writable : Expr → Prop
  | .literal value _ => value.IsAtom
  | .variableRef .. => True
  | .call _ arguments _ types => WritableAll arguments ∧ types = none
  | .binary _ left right _ => left.Writable ∧ right.Writable
  | .not operand _ => operand.Writable
  | .negate operand _ type => operand.Writable ∧ type = none
  | .logical _ left right _ => left.Writable ∧ right.Writable

def WritableAll : List Expr → Prop
  | [] => True
  | first :: rest => first.Writable ∧ WritableAll rest

end

end Expr

namespace Stmt

def chains : List Stmt → Bool
  | [.ifElse ..] => true
  | _ => false

section Written

variable (chained : Bool)

mutual

/-- The tokens of a command.  If `chained` holds, a choice that is all of the other branch
of a choice follows its `else` without braces. -/
def written : Stmt → List TokenKind
  | .skip _ => [.keyword .skip]
  | .boom message _ => .keyword .boom :: parenthesized [.string message]
  | .procedureCall name arguments _ =>
      .upper name :: parenthesized (separated (Expr.writtenEach arguments))
  | .assign name value _ => .lower name :: .mark .assign :: value.written
  | .tupleAssign names value _ =>
      parenthesized (separated (names.map fun name => [.lower name])) ++
        .mark .assign :: value.written
  | .ifElse condition thenBranch elseBranch _ =>
      .keyword .ifWord :: (condition.written ++
        (braced (writtenAll thenBranch) ++ writtenElse elseBranch))
  | .whileLoop condition body _ =>
      .keyword .whileWord :: (condition.written ++ braced (writtenAll body))
  | .repeatWith index lower upper body _ _ =>
      .keyword .repeatWith :: .lower index :: .keyword .inWord ::
        (lower.written ++ .mark .dots :: (upper.written ++ braced (writtenAll body)))
  | .caseOf scrutinee branches fallback _ =>
      .keyword .case :: (scrutinee.written ++
        .keyword .of :: (writtenBranches branches ++ writtenFallback fallback))
  | .block body _ => braced (writtenAll body)
  | .returns values _ _ =>
      .keyword .returnWord :: parenthesized (separated (Expr.writtenEach values))

def writtenAll : List Stmt → List TokenKind
  | [] => []
  | first :: rest => first.written ++ .mark .semicolon :: writtenAll rest

def writtenElse : Option (List Stmt) → List TokenKind
  | none => []
  | some body =>
      .keyword .elseWord ::
        -- the choice is written without the semicolon after it
        if chained && chains body then (writtenAll body).dropLast else braced (writtenAll body)

def writtenBranches : List Branch → List TokenKind
  | [] => []
  | .on literals body _ :: rest =>
      separated (literals.map Value.written) ++
        .mark .arrow :: (braced (writtenAll body) ++ writtenBranches rest)

def writtenFallback : Option (List Stmt) → List TokenKind
  | none => []
  | some body => .mark .underscore :: .mark .arrow :: braced (writtenAll body)

end

end Written

mutual

/-- Commands as they are before any type has been inferred, with something in every list
that cannot be empty. -/
def Writable : Stmt → Prop
  | .skip _ => True
  | .boom .. => True
  | .procedureCall _ arguments _ => Expr.WritableAll arguments
  | .assign _ value _ => value.Writable
  | .tupleAssign names value _ => names ≠ [] ∧ value.Writable
  | .ifElse condition thenBranch elseBranch _ =>
      condition.Writable ∧ WritableAll thenBranch ∧ WritableOptional elseBranch
  | .whileLoop condition body _ => condition.Writable ∧ WritableAll body
  | .repeatWith _ lower upper body _ type =>
      lower.Writable ∧ upper.Writable ∧ WritableAll body ∧ type = none
  | .caseOf scrutinee branches fallback _ =>
      scrutinee.Writable ∧ WritableBranches branches ∧ WritableOptional fallback ∧
        (branches ≠ [] ∨ fallback ≠ none)
  | .block body _ => WritableAll body
  | .returns values _ types => Expr.WritableAll values ∧ types = none

def WritableAll : List Stmt → Prop
  | [] => True
  | first :: rest => first.Writable ∧ WritableAll rest

def WritableOptional : Option (List Stmt) → Prop
  | none => True
  | some body => WritableAll body

def WritableBranches : List Branch → Prop
  | [] => True
  | .on literals body _ :: rest =>
      literals ≠ [] ∧ (∀ value ∈ literals, value.IsLiteral) ∧ WritableAll body ∧
        WritableBranches rest

end

end Stmt

namespace Definition

def written (chained : Bool) (definition : Definition) : List TokenKind :=
  routineWord definition.kind :: routineName definition.kind definition.name ::
    (parenthesized (separated (definition.parameters.map fun name => [.lower name])) ++
      braced (Stmt.writtenAll chained definition.body))

end Definition

namespace Import

def nameToken (name : String) : TokenKind :=
  if name.toList.head?.any Text.isCapital then .upper name else .lower name

def written (declaration : Import) : List TokenKind :=
  .keyword .fromWord :: .upper declaration.source :: .keyword .importWord ::
    parenthesized (separated (declaration.names.map fun entry => [nameToken entry.1]))

end Import

namespace Program

def written (chained : Bool) (program : Program) : List TokenKind :=
  program.imports.flatMap Import.written ++
    program.definitions.flatMap (Definition.written chained)

/-- A program that can be written: as it is before any type has been inferred, with something
in every list that cannot be empty. -/
structure Writable (program : Program) : Prop where
  imports : ∀ declaration ∈ program.imports, declaration.names ≠ []
  definitions : ∀ definition ∈ program.definitions, Stmt.WritableAll definition.body

end Program

/-! ## Expressions -/

theorem Value.constant?_render {value : Value} (literal : value.IsLiteral)
    (notInt : ∀ number, value ≠ .int number) : Value.constant? value.render = some value := by
  cases value with
  | int number => exact absurd rfl (notInt number)
  | bool truth => cases truth <;> rfl
  | color shade => cases shade <;> rfl
  | direction heading => cases heading <;> rfl
  | list _ => exact literal.elim

namespace Layer

theorem eq_of_strength_eq {first second : Layer} (same : first.strength = second.strength) :
    first = second := by
  cases first <;> cases second <;> first | rfl | cases same

theorem strength_next {layer : Layer} (weaker : layer.strength < atom.strength) :
    layer.next.strength = layer.strength + 1 := by
  cases layer <;> first | rfl | exact absurd weaker (Nat.lt_irrefl _)

theorem strength_le_atom (layer : Layer) : layer.strength ≤ atom.strength := by
  cases layer <;> decide

end Layer

namespace Grammar

variable {own : Layer} {kinds : List TokenKind} {expr : Expr}

theorem Expression.loosen {pos : Layer} (derived : Expression own kinds expr)
    (le : pos.strength ≤ own.strength) : Expression pos kinds expr := by
  obtain same | lt := Nat.eq_or_lt_of_le le
  · rwa [Layer.eq_of_strength_eq same]
  · have weaker := Nat.lt_of_lt_of_le lt own.strength_le_atom
    have next := Layer.strength_next weaker
    exact .tighter (derived.loosen (by omega))
termination_by own.strength - pos.strength

theorem Expression.anywhere (derived : Expression own kinds expr) : AnyExpression kinds expr :=
  derived.loosen (Nat.zero_le _)

theorem Expression.placed {pos : Layer} (derived : Expression own kinds expr) :
    Expression pos (placedIn pos own kinds) expr := by
  unfold placedIn
  split
  · exact (Expression.enclosed derived.anywhere).loosen pos.strength_le_atom
  · exact derived.loosen (Nat.le_of_not_lt ‹_›)

end Grammar

theorem Value.IsAtom.derived {value : Value} (atom : value.IsAtom) :
    Expression .atom value.written (.literal value .nowhere) := by
  cases value with
  | int number =>
    have notNegative : ¬ number < 0 := Int.not_lt.mpr atom
    rw [written, if_neg notNegative]
    have derived := Expression.number number.toNat
    rwa [Int.toNat_of_nonneg atom] at derived
  | list _ => exact atom.elim
  | _ => exact .constant (constant?_render trivial (by simp))

namespace Expr

theorem arguments_of_listed {exprs : List Expr} (listed : exprs ≠ [] →
      Listed AnyExpression (separated (writtenEach exprs)) (unplacedAll exprs)) :
    Arguments (separated (writtenEach exprs)) (unplacedAll exprs) := by
  cases exprs with
  | nil => exact .none
  | cons first rest => exact .some (listed (by simp))

mutual

theorem written_derived (expr : Expr) (writable : expr.Writable) :
    Expression expr.layer expr.written expr.unplaced := by
  match expr with
  | .literal value _ => exact Value.IsAtom.derived writable
  | .variableRef name _ => exact .variableRef name
  | .call name args _ _ =>
    obtain ⟨writable, rfl⟩ := writable
    exact .call name (arguments_of_listed (writtenEach_listed args writable))
  | .binary op left right _ =>
    exact .binary op (written_derived left writable.1).placed
      (written_derived right writable.2).placed
  | .not operand _ => exact .not (written_derived operand writable).placed
  | .negate operand _ _ =>
    obtain ⟨writable, rfl⟩ := writable
    exact .negate (written_derived operand writable).placed
  | .logical op left right _ =>
    exact .logical op (written_derived left writable.1).placed
      (written_derived right writable.2).placed

theorem writtenEach_listed (exprs : List Expr) (writable : WritableAll exprs) (some : exprs ≠ []) :
    Listed AnyExpression (separated (writtenEach exprs)) (unplacedAll exprs) := by
  match exprs with
  | [] => exact absurd rfl some
  | [only] => exact .one (written_derived only writable.1).anywhere
  | first :: second :: rest =>
    exact .more (written_derived first writable.1).anywhere
      (writtenEach_listed (second :: rest) writable.2 (by simp))

end

example :
    (binary .multiply (binary .add (variableRef "a" .nowhere) (variableRef "b" .nowhere) .nowhere)
      (negate (binary .power (variableRef "c" .nowhere) (literal (.int 2) .nowhere) .nowhere)
        .nowhere none) .nowhere).written =
      [.mark .leftParen, .lower "a", .mark .plus, .lower "b", .mark .rightParen, .mark .star,
        .mark .minus, .lower "c", .mark .caret, .number 2] := rfl

end Expr

end StoneBoard
