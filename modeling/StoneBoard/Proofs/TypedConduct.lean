import StoneBoard.Proofs.TypedPrograms

/-!
# How typed programs are evaluated

In a typed program variables only have values of their types, and calls only give values of
theirs.  A slot that is filled tells the tag of the argument, so no variant of a polymorphic
function refuses it.
-/

namespace StoneBoard

variable {locals : Bindings} {values args : List Value} {ty : Ty}
  {slot : Option (List BasicTy)} {given : List Ty} {declared : VariableTypes} {types : RoutineTypes}
variable {name : String} {names : List String}

/-! ## Evaluations -/

namespace Evaluation

/-- An evaluation gives good values, and never fails because of a tag. -/
def Yields {α : Type} (evaluation : Evaluation α) (good : α → Prop) : Prop :=
  ∀ scene outcome after, evaluation.run.run scene = some (outcome, after) →
    StoneBoard.Yields outcome good

namespace Yields

variable {α β : Type}

theorem pure {good : α → Prop} {value : α} (isGood : good value) :
    Yields (Pure.pure value) good := by
  rintro scene _ _ ⟨⟩
  exact isGood

theorem throw {good : α → Prop} {cause : Cause} (noTag : ¬ cause.IsTagFault) :
    Yields (MonadExcept.throw cause : Evaluation α) good := by
  rintro scene _ _ ⟨⟩
  exact noTag

theorem exhausted {good : α → Prop} : Yields Evaluation.exhausted good := by
  rintro scene _ _ ⟨⟩

theorem modifying (change : Scene → Scene) :
    Yields (modify change : Evaluation Unit) fun _ => True := by
  rintro scene _ _ ⟨⟩
  trivial

theorem bind {first : Evaluation α} {next : α → Evaluation β} {good : α → Prop}
    {better : β → Prop} (before : first.Yields good)
    (after : ∀ value, good value → (next value).Yields better) :
    (first >>= next).Yields better := by
  intro scene outcome last ran
  rw [run_bind] at ran
  rcases ended : first.run.run scene with _ | ⟨cause | value, between⟩ <;> rw [ended] at ran
  · cases ran
  · cases ran
    exact before scene _ _ ended
  · exact after value (before scene _ _ ended) between outcome last ran

theorem variableValue {good : Value → Prop}
    (isGood : ∀ value, Table.get? locals name = some value → good value) :
    (Evaluation.variableValue locals name).Yields good := by
  unfold Evaluation.variableValue
  split
  next value found => exact pure (isGood value found)
  next => exact throw (by rintro ⟨_, _, _, -, ⟨⟩⟩)

theorem truth (value : Value) : (Evaluation.truth value).Yields fun _ => True := by
  unfold Evaluation.truth
  split
  · exact pure trivial
  · exact throw (by rintro ⟨_, _, _, -, ⟨⟩⟩)

theorem single (holds : List.Forall₂ Value.HasTy values [ty]) :
    (Evaluation.single values).Yields (·.HasTy ty) := by
  rcases holds with _ | ⟨valueHolds, _ | _⟩
  exact pure valueHolds

theorem builtin (routine : String) {callee : Builtin} {good : List Value → Prop}
    (runs : ∀ board, StoneBoard.Yields (callee.run args board) fun result =>
      good result.2.toList) : (Evaluation.builtin routine callee args).Yields good := by
  intro scene outcome after ran
  have yields := runs scene.board
  rw [run_builtin] at ran
  rcases result : callee.run args scene.board with cause | ⟨board, _ | value⟩ <;>
    rw [result] at ran yields <;> cases ran <;> exact yields

end Yields

end Evaluation

/-- A function that is called by the variant for the types in a slot gives a value of its
type. -/
theorem Operation.yields_forTypes (op : Operation) (gives : op.Gives given ty)
    (holds : List.Forall₂ Value.HasTy args given)
    (filled : ∀ tags ∈ slot, given = tags.map .basic) (board : Board) :
    Yields (((Builtin.operation op).forTypes slot).run args board) fun result =>
      List.Forall₂ Value.HasTy result.2.toList [ty] := by
  have plain : Yields ((Builtin.operation op).run args board) fun result =>
      List.Forall₂ Value.HasTy result.2.toList [ty] :=
    (op.yields gives holds board).map fun value valueHolds => .cons valueHolds .nil
  unfold Builtin.forTypes
  split
  next _ tag same =>
    cases same
    split
    · -- the slot tells the tag of the only argument
      cases filled _ rfl
      rcases holds with _ | ⟨argumentHolds, _ | _⟩
      rw [Builtin.run_variant, if_pos (show _ = some tag from argumentHolds)]
      exact plain
    · exact plain
  next => exact plain

theorem Ty.filled_singleton {slot : Option BasicTy} (filled : ∀ tag ∈ slot, ty = .basic tag) :
    ∀ tags ∈ slot.map fun tag => [tag], [ty] = tags.map .basic := by
  intro tags isSlot
  obtain ⟨tag, isTag, rfl⟩ := Option.map_eq_some_iff.mp isSlot
  rw [filled tag isTag]
  rfl

/-! ## Variables -/

def Bindings.Typed (locals : Bindings) (declared : VariableTypes) : Prop :=
  ∀ name value, Table.get? locals name = some value → ∀ ty ∈ declared name, value.HasTy ty

namespace Bindings.Typed

variable {locals : Bindings} {declared : VariableTypes}
variable {name : String}
variable {value : Value}

theorem nil : Bindings.Typed [] declared := fun _ _ found => by cases found

theorem insert (typed : locals.Typed declared) (holds : ∀ ty ∈ declared name, value.HasTy ty) :
    Bindings.Typed (Table.insert locals name value) declared := by
  intro other found isFound
  rw [Table.get?_insert] at isFound
  split at isFound
  next same =>
    cases same
    cases isFound
    exact holds
  next => exact typed other found isFound

theorem insertAll (typed : locals.Typed declared)
    (holds : List.Forall₂ (fun name value => ∀ ty ∈ declared name, Value.HasTy value ty) names
      values) : Bindings.Typed (Table.insertAll locals (names.zip values)) declared := by
  induction holds generalizing locals with
  | nil => exact typed
  | cons first _ ih => exact ih (typed.insert first)

theorem erase (typed : locals.Typed declared) (name : String) :
    Bindings.Typed (Table.erase locals name) declared := by
  intro other found isFound
  rw [Table.get?_erase] at isFound
  split at isFound
  · cases isFound
  · exact typed other found isFound

theorem index (typed : locals.Typed declared) (holds : value.HasTy ty) :
    Bindings.Typed (Table.insert locals name value) (Function.update declared name (some ty)) := by
  intro other found isFound otherTy isDeclared
  rw [Table.get?_insert] at isFound
  split at isFound
  next same =>
    cases same
    cases isFound
    rw [Function.update_self] at isDeclared
    cases isDeclared
    exact holds
  next differ =>
    rw [Function.update_of_ne differ] at isDeclared
    exact typed other found isFound otherTy isDeclared

theorem forget (typed : locals.Typed (Function.update declared name (some ty)))
    (fresh : ∀ outer ∈ declared name, outer = ty) : locals.Typed declared := by
  intro other found isFound otherTy isDeclared
  apply typed other found isFound
  by_cases same : other = name
  · cases same
    rw [Function.update_self, fresh otherTy isDeclared]
    rfl
  · rw [Function.update_of_ne same]
    exact isDeclared

end Bindings.Typed

theorem Value.fit_of_hasTy {params : List String}
    (fits : List.Forall₂ (fun param ty => ∀ wanted ∈ declared param, Ty.Below wanted ty)
      params given) (holds : List.Forall₂ HasTy args given) :
    List.Forall₂ (fun param value => ∀ ty ∈ declared param, HasTy value ty) params
      args := by
  induction fits generalizing args with
  | nil =>
    cases holds
    exact .nil
  | cons first _ ih =>
    rcases holds with _ | ⟨firstHolds, restHold⟩
    refine .cons (fun ty isDeclared => ?_) (ih restHold)
    exact firstHolds.of_below (first ty isDeclared)

theorem Value.fit_of_declared {types : List Ty} (areDeclared : names.map declared = types.map some)
    (holds : List.Forall₂ HasTy values types) :
    List.Forall₂ (fun name value => ∀ ty ∈ declared name, HasTy value ty) names values := by
  induction holds generalizing names with
  | nil =>
    cases List.map_eq_nil_iff.mp areDeclared
    exact .nil
  | cons first _ ih =>
    obtain ⟨name, rest, rfl, isDeclared, restDeclared⟩ := List.map_eq_cons_iff.mp areDeclared
    refine .cons (fun ty isTy => ?_) (ih restDeclared)
    cases isDeclared.symm.trans isTy
    exact first

/-! ## Expressions -/

namespace Context

/-- A context in a program or in a module behind it, whose calls keep to types. -/
structure Typed (root : Site) (typing : Typing) (context : Context) : Prop where
  sound : root.Sound
  modules : ModulesSound root.modules
  holds : root.Holds context.site
  calls : ∀ {home definition types arguments}, root.Holds home →
    definition ∈ home.program.definitions → typing home definition.name types →
    List.Forall₂ (fun parameter value => ∀ ty ∈ types.declared parameter, Value.HasTy value ty)
      definition.parameters arguments →
    (context.call home definition arguments).Yields fun values =>
      List.Forall₂ Value.HasTy values (definition.resultTypes types)

variable {root : Site} {typing : Typing} {ctx : Context}

open Evaluation

namespace Typed

theorem invoke (typed : ctx.Typed root typing) {found : List Ty}
    (called : ctx.site.Calls typing name given found)
    (filled : ∀ tags ∈ slot, given = tags.map .basic)
    (holds : List.Forall₂ Value.HasTy args given) : (ctx.invoke name slot args).Yields fun values =>
      List.Forall₂ Value.HasTy values found := by
  unfold Context.invoke
  cases called with
  | routine isRoutine isTyped fits =>
    rw [isRoutine]
    dsimp only
    split
    · exact .throw (by rintro ⟨_, _, _, -, ⟨⟩⟩)
    · obtain ⟨sound, mods⟩ := typed.holds.sound typed.sound typed.modules
      obtain ⟨-, -, mem, -⟩ := sound.routine? mods isRoutine
      have holdsHome := typed.holds.routine? typed.sound typed.modules isRoutine
      exact typed.calls holdsHome mem isTyped (Value.fit_of_hasTy fits holds)
  | operation free isBuiltin gives =>
    rw [free, isBuiltin]
    exact .builtin _ (Operation.yields_forTypes _ gives holds filled)
  | @action act _ free isBuiltin =>
    rw [free, isBuiltin]
    exact .builtin _ fun board => (act.yields args board).map fun _ _ => .nil

theorem operate (ctx : Context) (op : Operation) (gives : op.Gives given ty)
    (filled : ∀ tags ∈ slot, given = tags.map .basic)
    (holds : List.Forall₂ Value.HasTy args given) :
    (ctx.operate op slot args).Yields (·.HasTy ty) :=
  (Yields.builtin _ (op.yields_forTypes gives holds filled)).bind fun _ valuesHold =>
    .single valuesHold

mutual

theorem expr (typed : ctx.Typed root typing) {declared : VariableTypes} {locals : Bindings}
    (localsTyped : locals.Typed declared) {expr : Expr} {ty : Ty}
    (exprTyped : expr.HasTy (ctx.site.Calls typing) declared ty) :
    (ctx.evalExpr locals expr).Yields (·.HasTy ty) := by
  match exprTyped with
  | .literal _ holds => exact .pure holds
  | .variableRef isDeclared =>
    exact .variableValue fun value found => localsTyped _ value found ty isDeclared
  | .call argumentsTyped called filled =>
    refine (typed.exprs localsTyped argumentsTyped).bind fun values holds => ?_
    exact (typed.invoke called filled holds).bind fun results resultsHold => .single resultsHold
  | @Expr.HasTy.binary _ _ op _ _ _ first second _ leftTyped rightTyped result =>
    refine (typed.expr localsTyped leftTyped).bind fun _ leftHolds => ?_
    refine (typed.expr localsTyped rightTyped).bind fun _ rightHolds => ?_
    have gives : op.operation.Gives [first, second] ty := .constant result (by cases op <;> rfl)
    exact operate ctx _ gives nofun (.cons leftHolds (.cons rightHolds .nil))
  | @Expr.HasTy.not _ _ _ _ given operandTyped =>
    refine (typed.expr localsTyped operandTyped).bind fun _ holds => ?_
    have gives : Operation.not.Gives [given] .bool := .constant rfl rfl
    exact operate ctx _ gives nofun (.cons holds .nil)
  | .negate operandTyped filled =>
    refine (typed.expr localsTyped operandTyped).bind fun _ holds => ?_
    have gives : Operation.negate.Gives [ty] ty := .generic ty (.cons rfl .nil)
    exact operate ctx _ gives (Ty.filled_singleton filled) (.cons holds .nil)
  | @Expr.HasTy.logical _ _ op _ _ _ _ leftTyped rightTyped =>
    have rightYields := typed.expr localsTyped rightTyped
    cases op <;>
      refine (typed.expr localsTyped leftTyped).bind fun first _ =>
        (Yields.truth first).bind fun holds _ => ?_ <;>
      split
    · exact rightYields
    · exact .pure rfl
    · exact .pure rfl
    · exact rightYields

theorem exprs (typed : ctx.Typed root typing) {declared : VariableTypes} {locals : Bindings}
    (localsTyped : locals.Typed declared) {exprs : List Expr} {types : List Ty}
    (exprsTyped : Expr.HasTyAll (ctx.site.Calls typing) declared exprs types) :
    (ctx.evalExprs locals exprs).Yields fun values =>
      List.Forall₂ Value.HasTy values types := by
  match exprsTyped with
  | .nil => exact .pure .nil
  | .cons firstTyped restTyped =>
    refine (typed.expr localsTyped firstTyped).bind fun value holds => ?_
    refine (typed.exprs localsTyped restTyped).bind fun values restHold => ?_
    exact .pure (.cons holds restHold)

end

theorem compare (ctx : Context) (op : Operation) (result : op.result = .exact .bool)
    (counted : op.parameters.length = 2) (first second : Value) :
    (ctx.operate op none [first, second]).Yields (·.HasTy .bool) := by
  have gives : op.Gives [.unknown, .unknown] .bool := .constant result counted.symm
  exact operate ctx op gives nofun (.cons trivial (.cons trivial .nil))

/-! ## Commands -/

theorem whileLoop {test : Bindings → Evaluation Bool} {body : Bindings → Evaluation Bindings}
    (tests : ∀ {locals : Bindings}, locals.Typed declared → (test locals).Yields fun _ => True)
    (repeats : ∀ {locals : Bindings}, locals.Typed declared →
      (body locals).Yields (·.Typed declared)) (fuel : Nat) (localsTyped : locals.Typed declared) :
    (Context.whileLoop test body fuel locals).Yields (·.Typed declared) := by
  induction fuel generalizing locals with
  | zero => exact .exhausted
  | succ fuel ih =>
    refine (tests localsTyped).bind fun goesOn _ => ?_
    split
    · exact (repeats localsTyped).bind fun _ nextTyped => ih nextTyped
    · exact .pure localsTyped

/-- The index of a loop keeps its type from round to round. -/
theorem repeatLoop (ctx : Context) {index : String} {slot : Option BasicTy}
    (isDeclared : declared index = some ty) (filled : ∀ tag ∈ slot, ty = .basic tag) (limit : Value)
    {body : Bindings → Evaluation Bindings}
    (repeats : ∀ {locals : Bindings}, locals.Typed declared →
      (body locals).Yields (·.Typed declared)) (fuel : Nat) (localsTyped : locals.Typed declared) :
    (ctx.repeatLoop index slot limit body fuel locals).Yields (·.Typed declared) := by
  induction fuel generalizing locals with
  | zero => exact .exhausted
  | succ fuel ih =>
    refine (repeats localsTyped).bind fun after afterTyped => ?_
    have current : (variableValue after index).Yields (·.HasTy ty) :=
      .variableValue fun value found => afterTyped index value found ty isDeclared
    refine current.bind fun value holds => ?_
    refine (compare ctx .notEqual rfl rfl value limit).bind fun unequal _ => ?_
    refine (Yields.truth unequal).bind fun goesOn _ => ?_
    split
    · have gives : Operation.next.Gives [ty] ty := .generic ty (.cons rfl .nil)
      refine (operate ctx _ gives (Ty.filled_singleton filled) (.cons holds .nil)).bind
        fun next nextHolds => ih (afterTyped.insert fun known isKnown => ?_)
      cases isDeclared.symm.trans isKnown
      exact nextHolds
    · exact .pure afterTyped

mutual

theorem stmt (typed : ctx.Typed root typing) {results : List Ty} {declared : VariableTypes}
    {stmt : Stmt} (stmtTyped : stmt.Typed (ctx.site.Calls typing) results declared)
    {locals : Bindings} (localsTyped : locals.Typed declared) :
    (ctx.execStmt stmt locals).Yields (·.Typed declared) := by
  match stmtTyped with
  | .skip => exact .pure localsTyped
  | .boom | .returns _ => exact .throw (by rintro ⟨_, _, _, -, ⟨⟩⟩)
  | .procedureCall argumentsTyped called =>
    refine (typed.exprs localsTyped argumentsTyped).bind fun values holds => ?_
    refine (typed.invoke called ?_ holds).bind fun _ _ => .pure localsTyped
    exact nofun
  | .assign isDeclared valueTyped =>
    refine (typed.expr localsTyped valueTyped).bind fun found holds => ?_
    refine .pure (localsTyped.insert fun known isKnown => ?_)
    cases isDeclared.symm.trans isKnown
    exact holds
  | .tupleAssign areDeclared argumentsTyped called filled =>
    refine ((typed.exprs localsTyped argumentsTyped).bind fun values holds =>
      typed.invoke called filled holds).bind fun values holds => ?_
    exact .pure (localsTyped.insertAll (Value.fit_of_declared areDeclared holds))
  | .ifElse conditionTyped thenTyped elseTyped =>
    refine (typed.expr localsTyped conditionTyped).bind fun value _ => ?_
    refine (Yields.truth value).bind fun holds _ => ?_
    split
    · exact typed.block thenTyped localsTyped
    · exact typed.optional elseTyped localsTyped
  | .whileLoop conditionTyped bodyTyped =>
    refine whileLoop (fun nowTyped => ?_) (fun nowTyped => typed.block bodyTyped nowTyped)
      ctx.fuel localsTyped
    exact (typed.expr nowTyped conditionTyped).bind fun value _ => .truth value
  | @Stmt.Typed.repeatWith _ _ _ index _ _ _ _ _ ty fresh lowerTyped upperTyped bodyTyped filled =>
    refine (typed.expr localsTyped lowerTyped).bind fun first firstHolds => ?_
    -- the upper bound is typed like the rest, but the index has its first value by then
    have startTyped : Bindings.Typed (Table.insert locals index first) declared :=
      localsTyped.insert fun outer isOuter => fresh outer isOuter ▸ firstHolds
    refine (typed.expr startTyped upperTyped).bind fun limit _ => ?_
    refine (compare ctx .lessEqual rfl rfl first limit).bind fun inRange _ => ?_
    refine (Yields.truth inRange).bind fun goesOn _ => ?_
    split
    · refine (repeatLoop ctx (Function.update_self index (some ty) declared) filled limit
        (fun nowTyped => typed.block bodyTyped nowTyped) ctx.fuel
        (localsTyped.index firstHolds)).bind fun after afterTyped => ?_
      exact .pure ((afterTyped.forget fresh).erase index)
    · exact .pure (startTyped.erase index)
  | .caseOf scrutineeTyped branchesTyped fallbackTyped =>
    refine (typed.expr localsTyped scrutineeTyped).bind fun subject _ => ?_
    exact typed.branches subject branchesTyped (typed.optional fallbackTyped localsTyped)
      localsTyped
  | .block bodyTyped => exact typed.block bodyTyped localsTyped

theorem block (typed : ctx.Typed root typing) {results : List Ty} {declared : VariableTypes}
    {body : List Stmt} (bodyTyped : Stmt.TypedAll (ctx.site.Calls typing) results declared body)
    {locals : Bindings} (localsTyped : locals.Typed declared) :
    (ctx.execBlock body locals).Yields (·.Typed declared) := by
  match bodyTyped with
  | .nil => exact .pure localsTyped
  | .cons firstTyped restTyped =>
    exact (typed.stmt firstTyped localsTyped).bind fun _ nowTyped =>
      typed.block restTyped nowTyped

theorem optional (typed : ctx.Typed root typing) {results : List Ty}
    {declared : VariableTypes} {body : Option (List Stmt)}
    (bodyTyped : Stmt.TypedOptional (ctx.site.Calls typing) results declared body)
    {locals : Bindings} (localsTyped : locals.Typed declared) :
    (ctx.execOptional body locals).Yields (·.Typed declared) := by
  match bodyTyped with
  | .none => exact .pure localsTyped
  | .some bodyTyped => exact typed.block bodyTyped localsTyped

theorem branches (typed : ctx.Typed root typing) {results : List Ty}
    {declared : VariableTypes} (subject : Value) {branches : List Branch}
    (branchesTyped : Stmt.TypedBranches (ctx.site.Calls typing) results declared branches)
    {otherwise : Bindings → Evaluation Bindings} {locals : Bindings}
    (otherwiseTyped : (otherwise locals).Yields (·.Typed declared))
    (localsTyped : locals.Typed declared) :
    (ctx.execBranches subject branches otherwise locals).Yields (·.Typed declared) := by
  match branchesTyped with
  | .nil => exact otherwiseTyped
  | .cons bodyTyped restTyped =>
    rw [execBranches]
    split
    · exact typed.block bodyTyped localsTyped
    · exact typed.branches subject restTyped otherwiseTyped localsTyped

end

/-! ## Routines -/

theorem body (typed : ctx.Typed root typing) {defn : Definition}
    (definitionTyped : defn.Typed (ctx.site.Calls typing) types)
    (start : Bindings.Typed (Table.insertAll [] (defn.parameters.zip args)) types.declared) :
    (ctx.evalBody defn args).Yields fun values =>
      List.Forall₂ Value.HasTy values types.results := by
  obtain ⟨bodyTyped, returnedTyped⟩ := definitionTyped.parts
  refine (typed.block bodyTyped start).bind fun locals localsTyped => ?_
  exact typed.exprs localsTyped returnedTyped

theorem definition (typed : ctx.Typed root typing) {defn : Definition}
    {types : RoutineTypes} (definitionTyped : defn.Typed (ctx.site.Calls typing) types)
    {args : List Value} (start : Bindings.Typed (Table.insertAll [] (defn.parameters.zip args))
      types.declared) : (ctx.evalDefinition defn args).Yields fun values =>
      List.Forall₂ Value.HasTy values (defn.resultTypes types) := by
  have yields := typed.body definitionTyped start
  unfold evalDefinition Definition.resultTypes
  cases defn.kind with
  | procedure => exact yields.bind fun _ _ => .pure .nil
  | function =>
    refine (Yields.modifying _).bind fun _ _ => yields.bind fun values holds => ?_
    exact (Yields.modifying _).bind fun _ _ => .pure holds

end Typed

theorem yields_evalCall (sound : root.Sound) (mods : ModulesSound root.modules)
    (allTyped : ∀ here, root.Holds here → here.Typed typing) (maxDepth fuel depth : Nat)
    {home : Site} {defn : Definition} (holds : root.Holds home)
    (mem : defn ∈ home.program.definitions) (isTyped : typing home defn.name types)
    (fit : List.Forall₂ (fun param value => ∀ ty ∈ types.declared param,
      Value.HasTy value ty) defn.parameters args) :
    (evalCall maxDepth fuel depth home defn args).Yields fun values =>
      List.Forall₂ Value.HasTy values (defn.resultTypes types) := by
  induction fuel generalizing depth home defn types args with
  | zero => exact .exhausted
  | succ fuel ih =>
    have start : Bindings.Typed (Table.insertAll [] (defn.parameters.zip args))
        types.declared := Bindings.Typed.insertAll Bindings.Typed.nil fit
    refine Typed.definition ⟨sound, mods, holds, ?_⟩
      (allTyped home holds defn mem types isTyped) start
    exact fun homeHolds isMember homeTyped fits => ih (depth + 1) homeHolds isMember homeTyped fits

end Context

theorem Site.yields_evaluate {site : Site} {typing : Typing} (sound : site.Sound)
    (mods : ModulesSound site.modules) (allTyped : ∀ here, site.Holds here → here.Typed typing)
    (isTyped : typing site "Main" types) (maxDepth fuel : Nat) :
    (site.evaluate maxDepth fuel).Yields fun _ => True := by
  unfold evaluate
  split
  · exact .throw (by rintro ⟨_, _, _, -, ⟨⟩⟩)
  next main found =>
    have named : main.name = "Main" := by simpa using List.find?_some found
    have mainTyped := allTyped site (.inl rfl) main (List.mem_of_find?_eq_some found) types
      (named ▸ isTyped)
    refine (Context.Typed.body ⟨sound, mods, .inl rfl, ?_⟩ mainTyped ?_).bind
      fun _ _ => .pure trivial
    · exact fun holds mem homeTyped fits =>
        Context.yields_evalCall sound mods allTyped maxDepth fuel 2 holds mem homeTyped fits
    · rw [List.zip_nil_right]
      exact Bindings.Typed.nil

end StoneBoard
