import StoneBoard.Proofs.Annotation
import StoneBoard.Proofs.Linkage
import StoneBoard.Proofs.Typing

/-!
# Inferred types

Inference tells nothing that the types of a typed program do not tell.  So what it puts into
the slots is right, in each of its rounds.
-/

namespace StoneBoard

open List

namespace Inference

variable {span : Span} {found wanted : Ty} {name : String}
variable {binding result : Ty} {given types : List Ty}

/-! ## Builtins -/

theorem below_of_matchParameter {param : SignatureTy} {given : Ty}
    (bindingBelow : binding.Below wanted) (accepted : param.Accepts wanted given)
    (below : found.Below given)
    (matched : matchParameter span binding param found = .ok result) : result.Below wanted := by
  cases param with
  | exact expected =>
    simp only [matchParameter, bind_eq_ok, exists_unit, pure_eq_ok] at matched
    exact matched.2 ▸ bindingBelow
  | variableTy =>
    cases accepted
    simp only [matchParameter] at matched
    split at matched <;> cases matched
    exact bindingBelow.unify below
  | listOfVariable =>
    cases found with
    | basic => cases matched
    | unknown =>
      simp only [matchParameter] at matched
      split at matched <;> cases matched
      exact bindingBelow.unify (Ty.unknown_below wanted)
    | list elem =>
      rcases accepted with rfl | ⟨rfl, -⟩
      · simp only [matchParameter] at matched
        split at matched <;> cases matched
        exact bindingBelow.unify below
      · exact below.elim

theorem below_of_matchParameters {params : List SignatureTy} {found : List Ty}
    (bindingBelow : binding.Below wanted)
    (accepted : List.Forall₂ (SignatureTy.Accepts wanted) params given)
    (below : List.Forall₂ Ty.Below found given)
    (matched : matchParameters span binding params found = .ok result) : result.Below wanted := by
  induction accepted generalizing found binding with
  | nil =>
    cases matched
    exact bindingBelow
  | cons acceptsFirst _ ih =>
    rcases below with _ | ⟨firstBelow, restBelow⟩
    simp only [matchParameters, bind_eq_ok] at matched
    obtain ⟨between, matchedFirst, matchedRest⟩ := matched
    have betweenBelow := below_of_matchParameter bindingBelow acceptsFirst firstBelow matchedFirst
    exact ih betweenBelow restBelow matchedRest

theorem below_of_builtinType {op : Operation} {found : List Ty} {ty : Ty}
    (gives : op.Gives given wanted) (below : List.Forall₂ Ty.Below found given)
    (inferred : builtinType op.name found span = .ok ty) : ty.Below wanted := by
  have isOperation : Builtin.ofName? op.name = some (.operation op) :=
    Builtin.ofName?_name (Builtin.operation_mem_all op)
  simp only [builtinType, isOperation, Builtin.signature, bind_eq_ok, pure_eq_ok] at inferred
  obtain ⟨binding, matched, rfl⟩ := inferred
  cases gives with
  | constant result _ =>
    rw [result]
    exact .refl wanted
  | generic wanted accepted =>
    have bindingBelow := below_of_matchParameters (Ty.unknown_below wanted) accepted below matched
    cases op.result with
    | exact ty => exact .refl ty
    | variableTy | listOfVariable => exact bindingBelow

/-! ## Expressions -/

/-- What inference knows about calls is below all of their types. -/
structure Informed (returns : Returns) (calls : CallTypes) : Prop where
  returns : ∀ {name types given found}, returns.get? name = some types →
    calls name given found → Ty.BelowAll types found
  builtins : ∀ {name given wanted found span ty}, calls name given [wanted] →
    List.Forall₂ Ty.Below found given → builtinType name found span = .ok ty → ty.Below wanted

def BelowDeclared (locals : Variables) (declared : VariableTypes) : Prop :=
  ∀ name ty, declared name = some ty → (variableType locals name).Below ty

section Expressions

variable {returns : Returns} {calls : CallTypes} {locals : Variables} {declared : VariableTypes}

mutual

theorem typed_inferExpr (informed : Informed returns calls) (known : BelowDeclared locals declared)
    {expr annotated : Expr} {ty found : Ty} (typed : expr.HasTy calls declared ty)
    (inferred : inferExpr returns locals expr = .ok (annotated, found)) :
    annotated.HasTy calls declared ty ∧ found.Below ty := by
  match typed with
  | .literal isBelow holds =>
    cases inferred
    exact ⟨.literal isBelow holds, isBelow⟩
  | .variableRef isDeclared =>
    cases inferred
    exact ⟨.variableRef isDeclared, known _ ty isDeclared⟩
  | .call argumentsTyped called filled =>
    rw [inferExpr, bind_eq_ok] at inferred
    obtain ⟨⟨annotatedArguments, types⟩, inferredArguments, inferred⟩ := inferred
    obtain ⟨annotatedTyped, below⟩ :=
      typed_inferExprs informed known argumentsTyped inferredArguments
    dsimp only at inferred
    split at inferred
    next results isKnown =>
      cases inferred
      exact ⟨.call annotatedTyped called filled, (informed.returns isKnown called).head⟩
    next =>
      obtain ⟨result, isBuiltin, inferred⟩ := bind_eq_ok.mp inferred
      cases inferred
      refine ⟨.call annotatedTyped called fun tags isSlot => ?_,
        informed.builtins called below isBuiltin⟩
      split at isSlot
      · exact Ty.eq_of_mapM_basic? below isSlot
      · exact filled tags isSlot
  | @Expr.HasTy.binary _ _ op _ _ _ first second _ leftTyped rightTyped result =>
    simp only [inferExpr, bind_eq_ok, pure_eq_ok, Prod.exists, Prod.mk.injEq] at inferred
    obtain ⟨_, _, inferredLeft, _, _, inferredRight, _, isBuiltin, rfl, rfl⟩ := inferred
    obtain ⟨newLeft, leftBelow⟩ := typed_inferExpr informed known leftTyped inferredLeft
    obtain ⟨newRight, rightBelow⟩ := typed_inferExpr informed known rightTyped inferredRight
    refine ⟨.binary newLeft newRight result, ?_⟩
    rw [BinaryOp.symbol_eq] at isBuiltin
    have gives : op.operation.Gives [first, second] ty := .constant result (by cases op <;> rfl)
    exact below_of_builtinType gives (.cons leftBelow (.cons rightBelow .nil)) isBuiltin
  | .not operandTyped =>
    simp only [inferExpr, bind_eq_ok, pure_eq_ok, Prod.exists, Prod.mk.injEq] at inferred
    obtain ⟨newOperand, operandType, inferredOperand, _, -, rfl, rfl⟩ := inferred
    have newTyped := (typed_inferExpr informed known operandTyped inferredOperand).1
    exact ⟨.not newTyped, .refl _⟩
  | .negate operandTyped _ =>
    simp only [inferExpr, bind_eq_ok, pure_eq_ok, Prod.exists, Prod.mk.injEq] at inferred
    obtain ⟨_, _, inferredOperand, _, isBuiltin, rfl, rfl⟩ := inferred
    obtain ⟨newTyped, below⟩ := typed_inferExpr informed known operandTyped inferredOperand
    have gives : Operation.negate.Gives [ty] ty := .generic ty (.cons rfl .nil)
    exact ⟨.negate newTyped fun tag isSlot => Ty.eq_of_basic? below isSlot,
      below_of_builtinType gives (.cons below .nil) isBuiltin⟩
  | .logical leftTyped rightTyped =>
    simp only [inferExpr, bind_eq_ok, pure_eq_ok, Prod.exists, Prod.mk.injEq] at inferred
    obtain ⟨_, _, inferredLeft, _, -, _, _, inferredRight, _, -, rfl, rfl⟩ := inferred
    have newLeft := (typed_inferExpr informed known leftTyped inferredLeft).1
    have newRight := (typed_inferExpr informed known rightTyped inferredRight).1
    exact ⟨.logical newLeft newRight, .refl _⟩

theorem typed_inferExprs (informed : Informed returns calls)
    (known : BelowDeclared locals declared) {exprs annotated : List Expr}
    {types found : List Ty} (typed : Expr.HasTyAll calls declared exprs types)
    (inferred : inferExprs returns locals exprs = .ok (annotated, found)) :
    Expr.HasTyAll calls declared annotated types ∧ List.Forall₂ Ty.Below found types := by
  match typed with
  | .nil =>
    cases inferred
    exact ⟨.nil, .nil⟩
  | .cons firstTyped restTyped =>
    simp only [inferExprs, bind_eq_ok, pure_eq_ok, Prod.exists, Prod.mk.injEq] at inferred
    obtain ⟨_, _, inferredFirst, _, _, inferredRest, rfl, rfl⟩ := inferred
    obtain ⟨newFirst, firstBelow⟩ := typed_inferExpr informed known firstTyped inferredFirst
    obtain ⟨newRest, restBelow⟩ := typed_inferExprs informed known restTyped inferredRest
    exact ⟨.cons newFirst newRest, .cons firstBelow restBelow⟩

end

theorem typed_inferCondition (informed : Informed returns calls)
    (known : BelowDeclared locals declared) {cond annotated : Expr} {ty : Ty}
    (typed : cond.HasTy calls declared ty)
    (inferred : inferCondition returns locals cond = .ok annotated) :
    annotated.HasTy calls declared ty := by
  simp only [inferCondition, bind_eq_ok, pure_eq_ok, Prod.exists] at inferred
  obtain ⟨_, _, inferredCondition, _, -, rfl⟩ := inferred
  exact (typed_inferExpr informed known typed inferredCondition).1

end Expressions

/-! ## Commands -/

/-- What is known in the middle of a routine is below its types. -/
structure Facts.Below (facts : Facts) (declared : VariableTypes) (results : List Ty) : Prop where
  locals : BelowDeclared facts.locals declared
  result : ∀ types, facts.result = some types → Ty.BelowAll types results

section Commands

variable {declared : VariableTypes} {results : List Ty}
variable {facts : Facts} {ty : Ty}
variable {after : Facts}

theorem Facts.Below.bind (known : facts.Below declared results)
    (isDeclared : declared name = some ty) (below : found.Below ty)
    (bound : facts.bind span name found = .ok after) : after.Below declared results := by
  simp only [Facts.bind, bind_eq_ok, exists_unit, pure_eq_ok] at bound
  obtain ⟨-, rfl⟩ := bound
  refine ⟨fun other otherTy otherDeclared => ?_, known.result⟩
  rw [variableType_insert]
  split
  next same =>
    cases same
    cases isDeclared.symm.trans otherDeclared
    exact (known.locals name ty isDeclared).unify below
  next => exact known.locals other otherTy otherDeclared

theorem Facts.Below.bindAll (known : facts.Below declared results)
    {names : List String} {found : List Ty}
    (areDeclared : names.map declared = types.map some) (below : Ty.BelowAll found types)
    (bound : facts.bindAll span names found = .ok after) : after.Below declared results := by
  induction names generalizing facts found types with
  | nil =>
    cases bound
    exact known
  | cons name names ih =>
    cases types with
    | nil => cases areDeclared
    | cons ty types =>
      obtain ⟨isDeclared, restDeclared⟩ := List.cons.inj areDeclared
      simp only [Facts.bindAll, bind_eq_ok] at bound
      obtain ⟨between, boundFirst, boundRest⟩ := bound
      exact ih (known.bind isDeclared below.head boundFirst) restDeclared below.tail boundRest

theorem Facts.Below.index (known : facts.Below declared results) {index : String}
    (below : found.Below ty) : Facts.Below { facts with locals := facts.locals.insert index found }
      (Function.update declared index (some ty)) results := by
  refine ⟨fun other otherTy isDeclared => ?_, known.result⟩
  rw [variableType_insert]
  split
  next same =>
    cases same
    rw [Function.update_self] at isDeclared
    cases isDeclared
    exact below
  next differ =>
    rw [Function.update_of_ne differ] at isDeclared
    exact known.locals other otherTy isDeclared

theorem Facts.Below.forget {index : String}
    (known : facts.Below (Function.update declared index (some ty)) results)
    (fresh : ∀ outer ∈ declared index, outer = ty) : facts.Below declared results := by
  refine ⟨fun other otherTy isDeclared => ?_, known.result⟩
  apply known.locals
  by_cases same : other = index
  · cases same
    rw [Function.update_self, fresh otherTy isDeclared]
  · rw [Function.update_of_ne same, isDeclared]

variable {returns : Returns} {calls : CallTypes}

mutual

theorem typed_inferStmt (informed : Informed returns calls) {declared : VariableTypes}
    {facts after : Facts} (known : facts.Below declared results) {stmt annotated : Stmt}
    (typed : stmt.Typed calls results declared)
    (inferred : inferStmt returns facts stmt = .ok (annotated, after)) :
    annotated.Typed calls results declared ∧ after.Below declared results := by
  match typed with
  | .skip =>
    cases inferred
    exact ⟨.skip, known⟩
  | .boom =>
    cases inferred
    exact ⟨.boom, known⟩
  | .procedureCall argumentsTyped called =>
    simp only [inferStmt, bind_eq_ok, pure_eq_ok, Prod.exists, Prod.mk.injEq] at inferred
    obtain ⟨_, _, inferredArguments, _, -, rfl, rfl⟩ := inferred
    have newTyped := (typed_inferExprs informed known.locals argumentsTyped inferredArguments).1
    exact ⟨.procedureCall newTyped called, known⟩
  | .assign isDeclared valueTyped =>
    simp only [inferStmt, bind_eq_ok, pure_eq_ok, Prod.exists, Prod.mk.injEq] at inferred
    obtain ⟨_, _, inferredValue, _, bound, rfl, rfl⟩ := inferred
    obtain ⟨newTyped, below⟩ := typed_inferExpr informed known.locals valueTyped inferredValue
    exact ⟨.assign isDeclared newTyped, known.bind isDeclared below bound⟩
  | @Stmt.Typed.tupleAssign _ _ _ _ name _ _ _ _ _ found areDeclared argumentsTyped called filled =>
    simp only [inferStmt, inferTuple, bind_eq_ok, pure_eq_ok, Prod.exists, Prod.mk.injEq]
      at inferred
    obtain ⟨_, _, ⟨_, _, inferredArguments, rfl, rfl⟩, _, bound, rfl, rfl⟩ := inferred
    have newTyped := (typed_inferExprs informed known.locals argumentsTyped inferredArguments).1
    refine ⟨.tupleAssign areDeclared newTyped called filled, known.bindAll areDeclared ?_ bound⟩
    cases isKnown : returns.get? name with
    | none => exact Ty.belowAll_nil found
    | some types => exact informed.returns isKnown called
  | .ifElse conditionTyped thenTyped elseTyped =>
    simp only [inferStmt, bind_eq_ok, pure_eq_ok, Prod.exists, Prod.mk.injEq] at inferred
    obtain ⟨_, inferredCondition, _, _, inferredThen, _, _, inferredElse, rfl, rfl⟩ := inferred
    have newCondition := typed_inferCondition informed known.locals conditionTyped inferredCondition
    obtain ⟨newThen, betweenKnown⟩ := typed_inferBlock informed known thenTyped inferredThen
    obtain ⟨newElse, afterKnown⟩ := typed_inferOptional informed betweenKnown elseTyped inferredElse
    exact ⟨.ifElse newCondition newThen newElse, afterKnown⟩
  | .whileLoop conditionTyped bodyTyped =>
    simp only [inferStmt, bind_eq_ok, pure_eq_ok, Prod.exists, Prod.mk.injEq] at inferred
    obtain ⟨_, inferredCondition, _, _, inferredBody, rfl, rfl⟩ := inferred
    have newCondition := typed_inferCondition informed known.locals conditionTyped inferredCondition
    obtain ⟨newBody, afterKnown⟩ := typed_inferBlock informed known bodyTyped inferredBody
    exact ⟨.whileLoop newCondition newBody, afterKnown⟩
  | .repeatWith fresh lowerTyped upperTyped bodyTyped _ =>
    simp only [inferStmt, bind_eq_ok, pure_eq_ok, Prod.exists, Prod.mk.injEq] at inferred
    obtain ⟨_, _, inferredLower, _, _, inferredUpper, _, -, _, _, inferredBody, rfl, rfl⟩ :=
      inferred
    obtain ⟨newLower, lowerBelow⟩ := typed_inferExpr informed known.locals lowerTyped inferredLower
    obtain ⟨newUpper, upperBelow⟩ := typed_inferExpr informed known.locals upperTyped inferredUpper
    have below := lowerBelow.unify upperBelow
    obtain ⟨newBody, afterKnown⟩ :=
      typed_inferBlock informed (known.index below) bodyTyped inferredBody
    exact ⟨.repeatWith fresh newLower newUpper newBody fun _ isSlot =>
      Ty.eq_of_basic? below isSlot, afterKnown.forget fresh⟩
  | .caseOf scrutineeTyped branchesTyped fallbackTyped =>
    simp only [inferStmt, bind_eq_ok, pure_eq_ok, Prod.exists, Prod.mk.injEq] at inferred
    obtain ⟨_, _, inferredScrutinee, _, _, inferredBranches, _, _, inferredFallback, rfl, rfl⟩ :=
      inferred
    have newScrutinee := (typed_inferExpr informed known.locals scrutineeTyped inferredScrutinee).1
    obtain ⟨newBranches, betweenKnown⟩ :=
      typed_inferBranches informed known branchesTyped inferredBranches
    obtain ⟨newFallback, afterKnown⟩ :=
      typed_inferOptional informed betweenKnown fallbackTyped inferredFallback
    exact ⟨.caseOf newScrutinee newBranches newFallback, afterKnown⟩
  | .block bodyTyped =>
    simp only [inferStmt, bind_eq_ok, pure_eq_ok, Prod.exists, Prod.mk.injEq] at inferred
    obtain ⟨_, _, inferredBody, rfl, rfl⟩ := inferred
    obtain ⟨newBody, afterKnown⟩ := typed_inferBlock informed known bodyTyped inferredBody
    exact ⟨.block newBody, afterKnown⟩
  | .returns valuesTyped =>
    simp only [inferStmt, bind_eq_ok, pure_eq_ok, Prod.exists, Prod.mk.injEq] at inferred
    obtain ⟨_, _, inferredValues, rfl, rfl⟩ := inferred
    obtain ⟨newValues, below⟩ := typed_inferExprs informed known.locals valuesTyped inferredValues
    refine ⟨.returns newValues, known.locals, fun found isFound => ?_⟩
    cases isFound
    exact Ty.belowAll_of_forall₂ below

theorem typed_inferBlock (informed : Informed returns calls) {declared : VariableTypes}
    {facts after : Facts} (known : facts.Below declared results) {body annotated : List Stmt}
    (typed : Stmt.TypedAll calls results declared body)
    (inferred : inferBlock returns facts body = .ok (annotated, after)) :
    Stmt.TypedAll calls results declared annotated ∧ after.Below declared results := by
  match typed with
  | .nil =>
    cases inferred
    exact ⟨.nil, known⟩
  | .cons firstTyped restTyped =>
    simp only [inferBlock, bind_eq_ok, pure_eq_ok, Prod.exists, Prod.mk.injEq] at inferred
    obtain ⟨_, _, inferredFirst, _, _, inferredRest, rfl, rfl⟩ := inferred
    obtain ⟨newFirst, betweenKnown⟩ := typed_inferStmt informed known firstTyped inferredFirst
    obtain ⟨newRest, afterKnown⟩ := typed_inferBlock informed betweenKnown restTyped inferredRest
    exact ⟨.cons newFirst newRest, afterKnown⟩

theorem typed_inferOptional (informed : Informed returns calls) {declared : VariableTypes}
    {facts after : Facts} (known : facts.Below declared results)
    {body annotated : Option (List Stmt)} (typed : Stmt.TypedOptional calls results declared body)
    (inferred : inferOptional returns facts body = .ok (annotated, after)) :
    Stmt.TypedOptional calls results declared annotated ∧ after.Below declared results := by
  match typed with
  | .none =>
    cases inferred
    exact ⟨.none, known⟩
  | .some bodyTyped =>
    simp only [inferOptional, bind_eq_ok, pure_eq_ok, Prod.exists, Prod.mk.injEq] at inferred
    obtain ⟨_, _, inferredBody, rfl, rfl⟩ := inferred
    obtain ⟨newBody, afterKnown⟩ := typed_inferBlock informed known bodyTyped inferredBody
    exact ⟨.some newBody, afterKnown⟩

theorem typed_inferBranches (informed : Informed returns calls) {declared : VariableTypes} {ty : Ty}
    {facts after : Facts} (known : facts.Below declared results) {branches annotated : List Branch}
    (typed : Stmt.TypedBranches calls results declared branches)
    (inferred : inferBranches returns ty facts branches = .ok (annotated, after)) :
    Stmt.TypedBranches calls results declared annotated ∧ after.Below declared results := by
  match typed with
  | .nil =>
    cases inferred
    exact ⟨.nil, known⟩
  | .cons bodyTyped restTyped =>
    simp only [inferBranches, bind_eq_ok, pure_eq_ok, Prod.exists, Prod.mk.injEq] at inferred
    obtain ⟨_, -, _, _, inferredBody, _, _, inferredRest, rfl, rfl⟩ := inferred
    obtain ⟨newBody, betweenKnown⟩ := typed_inferBlock informed known bodyTyped inferredBody
    obtain ⟨newRest, afterKnown⟩ := typed_inferBranches informed betweenKnown restTyped inferredRest
    exact ⟨.cons newBody newRest, afterKnown⟩

end

end Commands

/-! ## Definitions -/

section Definitions

variable {returns after : Returns} {calls : CallTypes} {owned : String → RoutineTypes → Prop}
variable {defns : List Definition}
variable {imported : Interface}

theorem typed_inferDefinition (informed : Informed returns calls) {types : RoutineTypes}
    {defn annotated : Definition} {result : Option (List Ty)} (typed : defn.Typed calls types)
    (inferred : inferDefinition returns defn = .ok (annotated, result)) :
    annotated.Typed calls types ∧
      ∀ found, result = some found → Ty.BelowAll found types.results := by
  have keeps := keeps_inferDefinition inferred
  simp only [inferDefinition, bind_eq_ok, pure_eq_ok, Prod.exists, Prod.mk.injEq] at inferred
  obtain ⟨newBody, facts, inferredBody, rfl, rfl⟩ := inferred
  have start : Facts.Below ⟨defn.parameters.map fun name => (name, Ty.unknown), none⟩
      types.declared types.results := by
    refine ⟨fun name ty _ => ?_, by rintro _ ⟨⟩⟩
    rw [variableType, Table.get?_map]
    cases defn.parameters.find? fun param => param == name <;>
      exact Ty.unknown_below ty
  obtain ⟨newTyped, known⟩ := typed_inferBlock informed start typed.body inferredBody
  refine ⟨⟨newTyped, fun silent => typed.silent ?_⟩, known.result⟩
  rw [← Definition.returnCount?_bare, ← keeps, Definition.returnCount?_bare]
  exact silent

/-- A call of a name gives what the types of the definition of that name tell, or nothing. -/
def Owns (calls : CallTypes) (owned : String → RoutineTypes → Prop) (name : String) : Prop :=
  ∀ given found, calls name given found →
    found = [] ∨ ∃ types, owned name types ∧ found = types.results

theorem Informed.insert (informed : Informed returns calls)
    (below : ∀ given found, calls name given found → Ty.BelowAll types found) :
    Informed (returns.insert name types) calls := by
  refine ⟨fun {other _ given found} known called => ?_, informed.builtins⟩
  rw [Table.get?_insert] at known
  split at known
  next same =>
    cases same
    cases known
    exact below given found called
  next => exact informed.returns known called

theorem Informed.updated (informed : Informed returns calls) (owns : Owns calls owned name)
    {result : Option (List Ty)} (below : ∀ types, owned name types → ∀ found, result = some found →
      Ty.BelowAll found types.results) : Informed (updated returns name result) calls := by
  refine ⟨fun {other types given found} known called => ?_, informed.builtins⟩
  rw [get?_updated] at known
  split at known
  next same =>
    subst same
    rcases Option.or_eq_some_iff.mp known with isNew | ⟨-, isOld⟩
    · rcases owns given found called with rfl | ⟨ownTypes, isOwned, rfl⟩
      · cases types <;> trivial
      · exact below ownTypes isOwned types isNew
    · exact informed.returns isOld called
  next => exact informed.returns known called

theorem typed_inferRounds {annotated : List Definition} {rounds : Nat}
    (informed : Informed returns calls)
    (owns : ∀ name ∈ defns.map Definition.name, Owns calls owned name)
    (typed : Definition.AllTyped calls owned defns)
    (inferred : inferRounds returns defns rounds = .ok (annotated, after)) :
    Informed after calls ∧ Definition.AllTyped calls owned annotated := by
  refine (inferRounds_rec (motive := fun returns found => (Informed returns calls ∧
    Definition.AllTyped calls owned found) ∧ ∀ name ∈ found.map Definition.name,
      Owns calls owned name) ?_ ⟨⟨informed, typed⟩, owns⟩ inferred).1
  rintro returns before first rest newFirst result ⟨⟨informed, typed⟩, owns⟩ inferred
  have sameName := (keeps_inferDefinition inferred).name
  simp only [Definition.AllTyped, map_append, map_cons, forall_mem_append,
    forall_mem_cons, ← sameName] at typed owns ⊢
  obtain ⟨beforeTyped, firstTyped, restTyped⟩ := typed
  have typedThen (types : RoutineTypes) (isOwned : owned newFirst.name types) :=
    typed_inferDefinition informed (firstTyped types isOwned) inferred
  exact ⟨⟨informed.updated owns.2.1 fun types isOwned => (typedThen types isOwned).2, beforeTyped,
    fun types isOwned => (typedThen types isOwned).1, restTyped⟩, owns⟩

/-- What is known before the first round: what interfaces tell, and nothing about the results
of the definitions. -/
theorem informed_initialReturns
    (told : ∀ entry ∈ imported, ∀ given found, calls entry.1 given found →
      Ty.BelowAll entry.2.returns found)
    (builtins : ∀ {name given wanted found span ty}, calls name given [wanted] →
      List.Forall₂ Ty.Below found given → builtinType name found span = .ok ty →
      ty.Below wanted) : Informed (initialReturns imported defns) calls := by
  unfold initialReturns
  refine List.foldlRecOn (motive := fun returns => Informed returns calls) defns _ ?_
    fun returns informed defn _ => ?_
  · refine ⟨fun {name types given found} known called => ?_, builtins⟩
    obtain ⟨entry, isFunction, same⟩ := List.mem_map.mp (Table.mem_of_get? known)
    cases same
    exact told entry (mem_of_mem_filter isFunction) given found called
  · split
    next count _ => exact informed.insert fun _ found _ => Ty.belowAll_unknown count found
    next => exact informed

/-- Inference fills the slots of a typed program rightly, and what it finds for the results of
functions is below their types. -/
theorem typed_inferProgram {prog annotated : Program}
    {results : Returns} (informed : Informed (initialReturns imported prog.definitions) calls)
    (owns : ∀ name ∈ prog.definitions.map Definition.name, Owns calls owned name)
    (typed : Definition.AllTyped calls owned prog.definitions)
    (inferred : inferProgram imported prog = .ok (annotated, results)) :
    Definition.AllTyped calls owned annotated.definitions ∧
      ∀ name types given found, results.get? name = some types → calls name given found →
        Ty.BelowAll types found := by
  simp only [inferProgram, bind_eq_ok, pure_eq_ok, Prod.exists, Prod.mk.injEq] at inferred
  obtain ⟨defns, returns, inferredRounds, rfl, rfl⟩ := inferred
  obtain ⟨informedAfter, newTyped⟩ := typed_inferRounds informed owns typed inferredRounds
  refine ⟨newTyped, fun name types given found known called => ?_⟩
  have mem := List.mem_eraseDups.mp (Table.mem_of_get? known)
  obtain ⟨defn, -, isResult⟩ := List.mem_filterMap.mp mem
  obtain ⟨_, returned, same⟩ := Option.map_eq_some_iff.mp isResult
  cases same
  exact informedAfter.returns returned called

end Definitions

end Inference

end StoneBoard
