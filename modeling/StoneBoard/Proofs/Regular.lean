import StoneBoard.Proofs.Evaluation

/-!
# Regular programs

What the reader and the checks of a program guarantee to those who run it.  Variables have
names of the language, so that hidden names and names with an at sign are free.  Calls name
routines of the right shape, several variables are only assigned the values of a call that
gives as many, and no return stands inside a body.

Neither property depends on the slots for types.
-/

namespace StoneBoard

/-! ## Names -/

/-- A letter, then characters that continue a name. -/
def IsIdentifier (name : String) : Prop :=
  ∃ first rest, name.toList = first :: rest ∧ Text.isLetter first = true ∧
    ∀ character ∈ rest, Lexer.continuesName character = true

namespace Expr

mutual

/-- All variables of an expression have names of the language. -/
def Named : Expr → Prop
  | .literal _ _ => True
  | .variableRef name _ => IsIdentifier name
  | .call _ arguments _ _ => NamedAll arguments
  | .binary _ left right _ => left.Named ∧ right.Named
  | .not operand _ => operand.Named
  | .negate operand _ _ => operand.Named
  | .logical _ left right _ => left.Named ∧ right.Named

def NamedAll : List Expr → Prop
  | [] => True
  | first :: rest => first.Named ∧ NamedAll rest

end

end Expr

namespace Stmt

mutual

def Named : Stmt → Prop
  | .skip _ => True
  | .boom _ _ => True
  | .procedureCall _ arguments _ => Expr.NamedAll arguments
  | .assign name value _ => IsIdentifier name ∧ value.Named
  | .tupleAssign names value _ => (∀ name ∈ names, IsIdentifier name) ∧ value.Named
  | .ifElse condition thenBranch elseBranch _ =>
      condition.Named ∧ NamedAll thenBranch ∧ NamedOptional elseBranch
  | .whileLoop condition body _ => condition.Named ∧ NamedAll body
  | .repeatWith index lower upper body _ _ =>
      IsIdentifier index ∧ lower.Named ∧ upper.Named ∧ NamedAll body
  | .caseOf scrutinee branches fallback _ =>
      scrutinee.Named ∧ NamedBranches branches ∧ NamedOptional fallback
  | .block body _ => NamedAll body
  | .returns values _ _ => Expr.NamedAll values

def NamedAll : List Stmt → Prop
  | [] => True
  | first :: rest => first.Named ∧ NamedAll rest

def NamedOptional : Option (List Stmt) → Prop
  | none => True
  | some body => NamedAll body

def NamedBranches : List Branch → Prop
  | [] => True
  | .on _ body _ :: rest => NamedAll body ∧ NamedBranches rest

end

theorem namedAll_iff (body : List Stmt) : NamedAll body ↔ ∀ stmt ∈ body, stmt.Named := by
  induction body with
  | nil => simp [NamedAll]
  | cons first rest ih => simp [NamedAll, ih]

end Stmt

def Definition.Named (definition : Definition) : Prop := Stmt.NamedAll definition.body

/-! ## Shapes -/

/-- How a routine is called: with how many arguments, and what a function gives for
them. -/
inductive Shape where
  | procedure (arity : Nat)
  | function (arity results : Nat)
deriving DecidableEq

namespace Shape

def arity : Shape → Nat
  | procedure arity => arity
  | function arity _ => arity

def results : Shape → Nat
  | procedure _ => 0
  | function _ results => results

end Shape

def RoutineInfo.shape (info : RoutineInfo) : Shape :=
  match info.kind with
  | .procedure => .procedure info.arity
  | .function => .function info.arity info.returns.length

def Definition.shape (definition : Definition) : Shape := definition.info.shape

def Builtin.shape (builtin : Builtin) : Shape := builtin.info.shape

def Site.shape? (site : Site) (name : String) : Option Shape :=
  match site.routine? name with
  | some (_, definition) => some definition.shape
  | none => (Builtin.ofName? name).map Builtin.shape

namespace Definition

variable {defn : Definition}

/-- The final return of a definition, if there is one, and what it gives. -/
theorem finalReturn?_cases (defn : Definition) :
    (∃ span types, defn.finalReturn? = some (.returns defn.returned span types)) ∨
      (defn.finalReturn? = none ∧ defn.returned = []) := by
  unfold returned finalReturn?
  split
  · exact .inl ⟨_, _, rfl⟩
  · exact .inr ⟨rfl, rfl⟩

theorem finalReturn?_concat {body : List Stmt} {last : Stmt} (isBody : defn.body = body ++ [last]) :
    defn.finalReturn? = if last.returned?.isSome then some last else none := by
  cases last <;> simp [finalReturn?, isBody, Stmt.returned?]

theorem kind_of_isMain (isMain : defn.isMain = true) : defn.kind = .procedure := by
  simp only [Definition.isMain, Bool.and_eq_true, beq_iff_eq] at isMain
  exact isMain.1

theorem returnCount?_eq (defn : Definition) : defn.returnCount?.getD 0 = defn.returned.length := by
  unfold returnCount? returned
  cases defn.finalReturn?.bind Stmt.returned? <;> rfl

theorem shape_of_procedure (kind : defn.kind = .procedure) :
    defn.shape = .procedure defn.parameters.length := by
  simp [shape, RoutineInfo.shape, info, kind]

theorem shape_of_function (kind : defn.kind = .function) : defn.shape =
      .function defn.parameters.length defn.returned.length := by
  rw [← returnCount?_eq]
  cases returns : defn.returnCount? <;>
    simp [shape, RoutineInfo.shape, info, kind, returns]

theorem shape_arity (defn : Definition) : defn.shape.arity = defn.parameters.length := by
  cases kind : defn.kind with
  | procedure => rw [shape_of_procedure kind]; rfl
  | function => rw [shape_of_function kind]; rfl

theorem shape_results (defn : Definition) : defn.shape.results = defn.info.returns.length := by
  cases kind : defn.kind with
  | procedure => simp [shape_of_procedure kind, Shape.results, info, kind]
  | function => simp [shape, RoutineInfo.shape, Shape.results, info, kind]

end Definition

/-! ## Calls and commands -/

namespace Expr

variable (shapes : String → Option Shape)

mutual

/-- Every call is of a function that takes as many arguments and gives one value. -/
def Regular : Expr → Prop
  | .literal _ _ => True
  | .variableRef _ _ => True
  | .call name arguments _ _ =>
      shapes name = some (.function arguments.length 1) ∧ RegularAll arguments
  | .binary _ left right _ => left.Regular ∧ right.Regular
  | .not operand _ => operand.Regular
  | .negate operand _ _ => operand.Regular
  | .logical _ left right _ => left.Regular ∧ right.Regular

def RegularAll : List Expr → Prop
  | [] => True
  | first :: rest => first.Regular ∧ RegularAll rest

end

def RegularTuple (count : Nat) : Expr → Prop
  | .call name arguments _ _ =>
      shapes name = some (.function arguments.length count) ∧ RegularAll shapes arguments
  | _ => False

end Expr

namespace Stmt

variable (shapes : String → Option Shape)

mutual

/-- Every call fits its routine, and there is no return. -/
def Regular : Stmt → Prop
  | .skip _ => True
  | .boom _ _ => True
  | .procedureCall name arguments _ =>
      shapes name = some (.procedure arguments.length) ∧ Expr.RegularAll shapes arguments
  | .assign _ value _ => value.Regular shapes
  | .tupleAssign names value _ => names.Nodup ∧ value.RegularTuple shapes names.length
  | .ifElse condition thenBranch elseBranch _ =>
      condition.Regular shapes ∧ RegularAll thenBranch ∧ RegularOptional elseBranch
  | .whileLoop condition body _ => condition.Regular shapes ∧ RegularAll body
  | .repeatWith _ lower upper body _ _ =>
      lower.Regular shapes ∧ upper.Regular shapes ∧ RegularAll body
  | .caseOf scrutinee branches fallback _ =>
      scrutinee.Regular shapes ∧ RegularBranches branches ∧ RegularOptional fallback
  | .block body _ => RegularAll body
  | .returns _ _ _ => False

def RegularAll : List Stmt → Prop
  | [] => True
  | first :: rest => first.Regular ∧ RegularAll rest

def RegularOptional : Option (List Stmt) → Prop
  | none => True
  | some body => RegularAll body

def RegularBranches : List Branch → Prop
  | [] => True
  | .on _ body _ :: rest => RegularAll body ∧ RegularBranches rest

end

theorem regularAll_iff (body : List Stmt) :
    RegularAll shapes body ↔ ∀ stmt ∈ body, stmt.Regular shapes := by
  induction body with
  | nil => simp [RegularAll]
  | cons first rest ih => simp [RegularAll, ih]

end Stmt

/-- The body is regular up to its return, and it returns as its kind demands: the main
procedure gives variables, and other procedures give nothing. -/
structure Definition.Regular (shapes : String → Option Shape) (definition : Definition) :
    Prop where
  body : Stmt.RegularAll shapes (Compilation.bodyBeforeReturn definition)
  values : Expr.RegularAll shapes definition.returned
  main : definition.isMain = true → ∀ value ∈ definition.returned, value.variableName?.isSome
  silent : definition.kind = .procedure → definition.isMain = false →
    definition.finalReturn? = none

end StoneBoard
