import Mathlib.Data.List.Basic
import StoneBoard.Proofs.Regular

/-!
# Programs without types

Emptying all slots for types leaves a bare program.  A program and its bare form call the
same routines and use the same names, so what is regular or named in one is so in the other.
-/

namespace StoneBoard

open List

/-! ## Expressions -/

namespace Expr

mutual

def bare : Expr → Expr
  | .literal value span => .literal value span
  | .variableRef name span => .variableRef name span
  | .call name arguments span _ => .call name (bareAll arguments) span none
  | .binary op left right span => .binary op left.bare right.bare span
  | .not operand span => .not operand.bare span
  | .negate operand span _ => .negate operand.bare span none
  | .logical op left right span => .logical op left.bare right.bare span

def bareAll : List Expr → List Expr
  | [] => []
  | first :: rest => first.bare :: bareAll rest

end

theorem bareAll_eq_map (exprs : List Expr) : bareAll exprs = exprs.map bare := by
  induction exprs with
  | nil => rfl
  | cons first rest ih => rw [bareAll, map_cons, ih]

@[simp]
theorem length_bareAll (exprs : List Expr) : (bareAll exprs).length = exprs.length := by
  rw [bareAll_eq_map, length_map]

@[simp]
theorem variableName?_bare (expr : Expr) : expr.bare.variableName? = expr.variableName? := by
  cases expr <;> rfl

@[simp]
theorem span_bare (expr : Expr) : expr.bare.span = expr.span := by
  cases expr <;> rfl

variable {shapes : String → Option Shape}

mutual

theorem regular_bare (expr : Expr) : expr.bare.Regular shapes ↔ expr.Regular shapes := by
  cases expr <;> simp only [bare, Regular, length_bareAll, regular_bare, regularAll_bareAll]

theorem regularAll_bareAll (exprs : List Expr) :
    RegularAll shapes (bareAll exprs) ↔ RegularAll shapes exprs := by
  cases exprs <;> simp only [bareAll, RegularAll, regular_bare, regularAll_bareAll]

end

theorem regularTuple_bare (count : Nat) (expr : Expr) :
    expr.bare.RegularTuple shapes count ↔ expr.RegularTuple shapes count := by
  cases expr with
  | call name args =>
    rw [bare, RegularTuple, RegularTuple, length_bareAll, regularAll_bareAll]
  | _ => exact Iff.rfl

mutual

theorem named_bare (expr : Expr) : expr.bare.Named ↔ expr.Named := by
  cases expr <;> simp only [bare, Named, named_bare, namedAll_bareAll]

theorem namedAll_bareAll (exprs : List Expr) : NamedAll (bareAll exprs) ↔ NamedAll exprs := by
  cases exprs <;> simp only [bareAll, NamedAll, named_bare, namedAll_bareAll]

end

end Expr

/-! ## Commands -/

namespace Stmt

mutual

def bare : Stmt → Stmt
  | .skip span => .skip span
  | .boom message span => .boom message span
  | .procedureCall name arguments span => .procedureCall name (Expr.bareAll arguments) span
  | .assign name value span => .assign name value.bare span
  | .tupleAssign names value span => .tupleAssign names value.bare span
  | .ifElse condition thenBranch elseBranch span =>
      .ifElse condition.bare (bareAll thenBranch) (bareOptional elseBranch) span
  | .whileLoop condition body span => .whileLoop condition.bare (bareAll body) span
  | .repeatWith index lower upper body span _ =>
      .repeatWith index lower.bare upper.bare (bareAll body) span none
  | .caseOf scrutinee branches fallback span =>
      .caseOf scrutinee.bare (bareBranches branches) (bareOptional fallback) span
  | .block body span => .block (bareAll body) span
  | .returns values span _ => .returns (Expr.bareAll values) span none

def bareAll : List Stmt → List Stmt
  | [] => []
  | first :: rest => first.bare :: bareAll rest

def bareOptional : Option (List Stmt) → Option (List Stmt)
  | none => none
  | some body => some (bareAll body)

def bareBranches : List Branch → List Branch
  | [] => []
  | .on literals body span :: rest => .on literals (bareAll body) span :: bareBranches rest

end

theorem bareAll_eq_map (body : List Stmt) : bareAll body = body.map bare := by
  induction body with
  | nil => rfl
  | cons first rest ih => rw [bareAll, map_cons, ih]

@[simp]
theorem returned?_bare (stmt : Stmt) : stmt.bare.returned? = stmt.returned?.map Expr.bareAll := by
  cases stmt <;> rfl

variable {shapes : String → Option Shape}

mutual

theorem regular_bare (stmt : Stmt) : stmt.bare.Regular shapes ↔ stmt.Regular shapes := by
  cases stmt <;>
    simp only [bare, Regular, Expr.length_bareAll, Expr.regular_bare, Expr.regularAll_bareAll,
      Expr.regularTuple_bare, regularAll_bareAll, regularOptional_bareOptional,
      regularBranches_bareBranches]

theorem regularAll_bareAll (body : List Stmt) :
    RegularAll shapes (bareAll body) ↔ RegularAll shapes body := by
  cases body <;> simp only [bareAll, RegularAll, regular_bare, regularAll_bareAll]

theorem regularOptional_bareOptional (body : Option (List Stmt)) :
    RegularOptional shapes (bareOptional body) ↔ RegularOptional shapes body := by
  cases body <;> simp only [bareOptional, RegularOptional, regularAll_bareAll]

theorem regularBranches_bareBranches (branches : List Branch) :
    RegularBranches shapes (bareBranches branches) ↔ RegularBranches shapes branches := by
  rcases branches with _ | ⟨⟨_, _, _⟩, _⟩ <;>
    simp only [bareBranches, RegularBranches, regularAll_bareAll, regularBranches_bareBranches]

end

mutual

theorem named_bare (stmt : Stmt) : stmt.bare.Named ↔ stmt.Named := by
  cases stmt <;>
    simp only [bare, Named, Expr.named_bare, Expr.namedAll_bareAll, namedAll_bareAll,
      namedOptional_bareOptional, namedBranches_bareBranches]

theorem namedAll_bareAll (body : List Stmt) : NamedAll (bareAll body) ↔ NamedAll body := by
  cases body <;> simp only [bareAll, NamedAll, named_bare, namedAll_bareAll]

theorem namedOptional_bareOptional (body : Option (List Stmt)) :
    NamedOptional (bareOptional body) ↔ NamedOptional body := by
  cases body <;> simp only [bareOptional, NamedOptional, namedAll_bareAll]

theorem namedBranches_bareBranches (branches : List Branch) :
    NamedBranches (bareBranches branches) ↔ NamedBranches branches := by
  rcases branches with _ | ⟨⟨_, _, _⟩, _⟩ <;>
    simp only [bareBranches, NamedBranches, namedAll_bareAll, namedBranches_bareBranches]

end

end Stmt

/-! ## Definitions -/

namespace Definition

def bare (definition : Definition) : Definition :=
  { definition with body := Stmt.bareAll definition.body }

variable (defn : Definition)

@[simp]
theorem finalReturn?_bare : defn.bare.finalReturn? = defn.finalReturn?.map Stmt.bare := by
  rcases eq_nil_or_concat' defn.body with isEmpty | ⟨body, last, isBody⟩
  · simp [finalReturn?, bare, isEmpty, Stmt.bareAll]
  · have bareBody : defn.bare.body = Stmt.bareAll body ++ [last.bare] := by
      simp [bare, isBody, Stmt.bareAll_eq_map]
    rw [finalReturn?_concat isBody, finalReturn?_concat bareBody, Stmt.returned?_bare,
      Option.isSome_map]
    split <;> rfl

theorem returned_bare : defn.bare.returned = Expr.bareAll defn.returned := by
  rcases defn.finalReturn?_cases with ⟨span, types, returns⟩ | ⟨silent, isEmpty⟩
  · rw [returned, finalReturn?_bare, returns]
    rfl
  · rw [isEmpty, returned, finalReturn?_bare, silent]
    rfl

theorem bodyBeforeReturn_bare : Compilation.bodyBeforeReturn defn.bare =
      Stmt.bareAll (Compilation.bodyBeforeReturn defn) := by
  unfold Compilation.bodyBeforeReturn
  rw [finalReturn?_bare]
  cases defn.finalReturn? with
  | none => rfl
  | some last => simp [bare, Stmt.bareAll_eq_map, map_dropLast]

@[simp]
theorem returnCount?_bare : defn.bare.returnCount? = defn.returnCount? := by
  unfold returnCount?
  rw [finalReturn?_bare]
  cases defn.finalReturn? with
  | none => rfl
  | some last => cases last <;> simp [Stmt.bare, Stmt.returned?]

@[simp]
theorem info_bare : defn.bare.info = defn.info := by
  simp only [info, returnCount?_bare]
  rfl

theorem regular_bare {shapes : String → Option Shape} :
    defn.bare.Regular shapes ↔ defn.Regular shapes := by
  have sameVariables : (∀ value ∈ defn.bare.returned, value.variableName?.isSome) ↔
      ∀ value ∈ defn.returned, value.variableName?.isSome := by
    simp [returned_bare, Expr.bareAll_eq_map]
  have sameSilence : defn.bare.finalReturn? = none ↔ defn.finalReturn? = none := by
    simp
  constructor
  · intro regular
    refine ⟨?_, ?_, fun isMain => sameVariables.mp (regular.main isMain),
      fun kind notMain => sameSilence.mp (regular.silent kind notMain)⟩
    · rw [← Stmt.regularAll_bareAll, ← bodyBeforeReturn_bare]
      exact regular.body
    · rw [← Expr.regularAll_bareAll, ← returned_bare]
      exact regular.values
  · intro regular
    refine ⟨?_, ?_, fun isMain => sameVariables.mpr (regular.main isMain),
      fun kind notMain => sameSilence.mpr (regular.silent kind notMain)⟩
    · rw [bodyBeforeReturn_bare, Stmt.regularAll_bareAll]
      exact regular.body
    · rw [returned_bare, Expr.regularAll_bareAll]
      exact regular.values

theorem named_bare : defn.bare.Named ↔ defn.Named :=
  Stmt.namedAll_bareAll defn.body

end Definition

def Program.bare (program : Program) : Program :=
  { program with definitions := program.definitions.map Definition.bare }

end StoneBoard
