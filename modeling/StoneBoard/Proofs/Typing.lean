import Mathlib.Data.List.Basic
import Mathlib.Logic.Function.Basic
import StoneBoard.Proofs.Regular
import StoneBoard.Proofs.ValueTypes

/-!
# Typed programs

When types can be given to the variables and the results of a routine.  Every value that is
assigned, returned, put into a list or taken as the bound of a loop has exactly the type of
its place.  Arguments may be of types that tell more than those of the parameters, and a
routine may have several types, one of which is chosen for each call.

A slot for types that is filled has to be right.  An empty slot is right in any case, so the
rules tell as well when a program is typed before its types have been inferred.
-/

namespace StoneBoard

abbrev CallTypes := String → List Ty → List Ty → Prop

/-- The types of variables.  A name without a type can only be the index of a loop. -/
abbrev VariableTypes := String → Option Ty

/-! ## Expressions -/

namespace Expr

mutual

/-- An expression has a type, where calls and variables have some types. -/
inductive HasTy (calls : CallTypes) (declared : VariableTypes) : Expr → Ty → Prop
  | literal {value : Value} {span : Span} {ty : Ty} (known : value.ty.Below ty)
      (holds : value.HasTy ty) : HasTy calls declared (.literal value span) ty
  | variableRef {name : String} {span : Span} {ty : Ty} (isDeclared : declared name = some ty) :
      HasTy calls declared (.variableRef name span) ty
  | call {name : String} {arguments : List Expr} {span : Span} {slot : Option (List BasicTy)}
      {given : List Ty} {ty : Ty} (typed : HasTyAll calls declared arguments given)
      (called : calls name given [ty]) (filled : ∀ tags ∈ slot, given = tags.map .basic) :
      HasTy calls declared (.call name arguments span slot) ty
  | binary {op : BinaryOp} {left right : Expr} {span : Span} {first second ty : Ty}
      (leftTyped : HasTy calls declared left first)
      (rightTyped : HasTy calls declared right second)
      (result : op.operation.result = .exact ty) :
      HasTy calls declared (.binary op left right span) ty
  | not {operand : Expr} {span : Span} {given : Ty}
      (typed : HasTy calls declared operand given) :
      HasTy calls declared (.not operand span) .bool
  | negate {operand : Expr} {span : Span} {slot : Option BasicTy} {ty : Ty}
      (typed : HasTy calls declared operand ty) (filled : ∀ tag ∈ slot, ty = .basic tag) :
      HasTy calls declared (.negate operand span slot) ty
  -- the value may be that of the right operand
  | logical {op : LogicalOp} {left right : Expr} {span : Span} {first : Ty}
      (leftTyped : HasTy calls declared left first)
      (rightTyped : HasTy calls declared right .bool) :
      HasTy calls declared (.logical op left right span) .bool

inductive HasTyAll (calls : CallTypes) (declared : VariableTypes) : List Expr → List Ty → Prop
  | nil : HasTyAll calls declared [] []
  | cons {first : Expr} {rest : List Expr} {ty : Ty} {types : List Ty}
      (firstTyped : HasTy calls declared first ty)
      (restTyped : HasTyAll calls declared rest types) :
      HasTyAll calls declared (first :: rest) (ty :: types)

end

end Expr

/-! ## Commands -/

namespace Stmt

mutual

/-- A command keeps to the types of variables, and to those of the results of its routine. -/
inductive Typed (calls : CallTypes) (results : List Ty) : VariableTypes → Stmt → Prop
  | skip {declared : VariableTypes} {span : Span} : Typed calls results declared (.skip span)
  | boom {declared : VariableTypes} {message : String} {span : Span} :
      Typed calls results declared (.boom message span)
  | procedureCall {declared : VariableTypes} {name : String} {arguments : List Expr}
      {span : Span} {given found : List Ty}
      (typed : Expr.HasTyAll calls declared arguments given) (called : calls name given found) :
      Typed calls results declared (.procedureCall name arguments span)
  | assign {declared : VariableTypes} {name : String} {value : Expr} {span : Span} {ty : Ty}
      (isDeclared : declared name = some ty) (typed : value.HasTy calls declared ty) :
      Typed calls results declared (.assign name value span)
  | tupleAssign {declared : VariableTypes} {names : List String} {name : String}
      {arguments : List Expr} {span callSpan : Span} {slot : Option (List BasicTy)}
      {given found : List Ty} (areDeclared : names.map declared = found.map some)
      (typed : Expr.HasTyAll calls declared arguments given) (called : calls name given found)
      (filled : ∀ tags ∈ slot, given = tags.map .basic) :
      Typed calls results declared
        (.tupleAssign names (.call name arguments callSpan slot) span)
  | ifElse {declared : VariableTypes} {condition : Expr} {thenBranch : List Stmt}
      {elseBranch : Option (List Stmt)} {span : Span} {ty : Ty}
      (conditionTyped : condition.HasTy calls declared ty)
      (thenTyped : TypedAll calls results declared thenBranch)
      (elseTyped : TypedOptional calls results declared elseBranch) :
      Typed calls results declared (.ifElse condition thenBranch elseBranch span)
  | whileLoop {declared : VariableTypes} {condition : Expr} {body : List Stmt} {span : Span}
      {ty : Ty} (conditionTyped : condition.HasTy calls declared ty)
      (bodyTyped : TypedAll calls results declared body) :
      Typed calls results declared (.whileLoop condition body span)
  | repeatWith {declared : VariableTypes} {index : String} {lower upper : Expr}
      {body : List Stmt} {span : Span} {slot : Option BasicTy} {ty : Ty}
      (fresh : ∀ outer ∈ declared index, outer = ty)
      (lowerTyped : lower.HasTy calls declared ty) (upperTyped : upper.HasTy calls declared ty)
      (bodyTyped : TypedAll calls results (Function.update declared index (some ty)) body)
      (filled : ∀ tag ∈ slot, ty = .basic tag) :
      Typed calls results declared (.repeatWith index lower upper body span slot)
  | caseOf {declared : VariableTypes} {scrutinee : Expr} {branches : List Branch}
      {fallback : Option (List Stmt)} {span : Span} {ty : Ty}
      (scrutineeTyped : scrutinee.HasTy calls declared ty)
      (branchesTyped : TypedBranches calls results declared branches)
      (fallbackTyped : TypedOptional calls results declared fallback) :
      Typed calls results declared (.caseOf scrutinee branches fallback span)
  | block {declared : VariableTypes} {body : List Stmt} {span : Span}
      (bodyTyped : TypedAll calls results declared body) :
      Typed calls results declared (.block body span)
  | returns {declared : VariableTypes} {values : List Expr} {span : Span}
      {slot : Option (List Ty)} (typed : Expr.HasTyAll calls declared values results) :
      Typed calls results declared (.returns values span slot)

inductive TypedAll (calls : CallTypes) (results : List Ty) : VariableTypes → List Stmt → Prop
  | nil {declared : VariableTypes} : TypedAll calls results declared []
  | cons {declared : VariableTypes} {first : Stmt} {rest : List Stmt}
      (firstTyped : Typed calls results declared first)
      (restTyped : TypedAll calls results declared rest) :
      TypedAll calls results declared (first :: rest)

inductive TypedOptional (calls : CallTypes) (results : List Ty) :
    VariableTypes → Option (List Stmt) → Prop
  | none {declared : VariableTypes} : TypedOptional calls results declared none
  | some {declared : VariableTypes} {body : List Stmt}
      (bodyTyped : TypedAll calls results declared body) :
      TypedOptional calls results declared (some body)

inductive TypedBranches (calls : CallTypes) (results : List Ty) :
    VariableTypes → List Branch → Prop
  | nil {declared : VariableTypes} : TypedBranches calls results declared []
  | cons {declared : VariableTypes} {literals : List Value} {body : List Stmt} {span : Span}
      {rest : List Branch} (bodyTyped : TypedAll calls results declared body)
      (restTyped : TypedBranches calls results declared rest) :
      TypedBranches calls results declared (.on literals body span :: rest)

end

variable {calls : CallTypes} {results : List Ty} {declared : VariableTypes}

theorem typedAll_append {body more : List Stmt} : TypedAll calls results declared (body ++ more) ↔
      TypedAll calls results declared body ∧ TypedAll calls results declared more := by
  induction body with
  | nil => exact ⟨fun typed => ⟨.nil, typed⟩, And.right⟩
  | cons first rest ih =>
    constructor
    · rintro (_ | ⟨firstTyped, restTyped⟩)
      exact ⟨.cons firstTyped (ih.mp restTyped).1, (ih.mp restTyped).2⟩
    · rintro ⟨_ | ⟨firstTyped, restTyped⟩, moreTyped⟩
      exact .cons firstTyped (ih.mpr ⟨restTyped, moreTyped⟩)

end Stmt

/-! ## Routines -/

structure RoutineTypes where
  declared : VariableTypes
  results : List Ty

namespace Definition

/-- A definition keeps to types, and has no results if it does not return. -/
structure Typed (calls : CallTypes) (types : RoutineTypes) (definition : Definition) :
    Prop where
  body : Stmt.TypedAll calls types.results types.declared definition.body
  silent : definition.returnCount? = none → types.results = []

theorem Typed.parts {calls : CallTypes} {types : RoutineTypes} {defn : Definition}
    (typed : defn.Typed calls types) :
    Stmt.TypedAll calls types.results types.declared (Compilation.bodyBeforeReturn defn) ∧
      Expr.HasTyAll calls types.declared defn.returned types.results := by
  unfold Compilation.bodyBeforeReturn
  rcases defn.finalReturn?_cases with ⟨span, slot, final⟩ | ⟨silent, nothing⟩
  · rcases List.eq_nil_or_concat' defn.body with isEmpty | ⟨body, last, isBody⟩
    · simp [finalReturn?, isEmpty] at final
    · have typedBody := typed.body
      rw [isBody, Stmt.typedAll_append] at typedBody
      have isLast := finalReturn?_concat isBody
      rw [final] at isLast ⊢
      split at isLast
      · cases isLast
        obtain ⟨bodyTyped, _ | ⟨lastTyped, _⟩⟩ := typedBody
        cases lastTyped with
        | returns valuesTyped =>
          rw [isBody, List.dropLast_concat]
          exact ⟨bodyTyped, valuesTyped⟩
      · cases isLast
  · rw [silent, nothing]
    refine ⟨typed.body, ?_⟩
    rw [typed.silent (by rw [returnCount?, silent]; rfl)]
    exact .nil

def AllTyped (calls : CallTypes) (owned : String → RoutineTypes → Prop)
    (definitions : List Definition) : Prop :=
  ∀ definition ∈ definitions, ∀ types, owned definition.name types → definition.Typed calls types

def resultTypes (definition : Definition) (types : RoutineTypes) : List Ty :=
  match definition.kind with
  | .function => types.results
  | .procedure => []

end Definition

/-! ## Programs -/

abbrev Typing := Site → String → RoutineTypes → Prop

namespace Site

/-- What a call of a name may be given and gives: by one of the types of the routine that it
stands for, or by the signature of a builtin. -/
inductive Calls (typing : Typing) (site : Site) (name : String) : List Ty → List Ty → Prop
  | routine {home : Site} {definition : Definition} {types : RoutineTypes} {given : List Ty}
      (found : site.routine? name = some (home, definition))
      (typed : typing home definition.name types)
      (fits : List.Forall₂ (fun parameter ty => ∀ wanted ∈ types.declared parameter,
        wanted.Below ty) definition.parameters given) :
      Calls typing site name given (definition.resultTypes types)
  | operation {op : Operation} {given : List Ty} {ty : Ty} (free : site.routine? name = none)
      (isBuiltin : Builtin.ofName? name = some (.operation op)) (gives : op.Gives given ty) :
      Calls typing site name given [ty]
  | action {act : Action} {given : List Ty} (free : site.routine? name = none)
      (isBuiltin : Builtin.ofName? name = some (.action act)) : Calls typing site name given []

theorem Calls.congr {typing : Typing} {site other : Site} {name : String} {given found : List Ty}
    (called : site.Calls typing name given found)
    (same : other.routine? name = site.routine? name) : other.Calls typing name given found := by
  cases called with
  | routine isRoutine typed fits => exact .routine (same.trans isRoutine) typed fits
  | operation free isBuiltin gives => exact .operation (same.trans free) isBuiltin gives
  | action free isBuiltin => exact .action (same.trans free) isBuiltin

def Typed (typing : Typing) (site : Site) : Prop :=
  Definition.AllTyped (site.Calls typing) (typing site) site.program.definitions

end Site

end StoneBoard
