import StoneBoard.Proofs.Assembly
import StoneBoard.Proofs.CommandCode

/-!
# The code of routines

A machine that has just entered a routine follows the evaluation of its definition, back to
the caller.  By induction on the fuel this holds for all calls, and so a machine that has
just been started follows the evaluation of the whole program.
-/

namespace StoneBoard

open Machine Compilation List

variable {defn : Definition}
variable {name : String} {home : CompiledModule} {routine : Routine}

/-! ## Bodies and returns -/

namespace Expr

theorem NamedAll.isIdentifier {values : List Expr} (named : NamedAll values)
    (mem : name ∈ values.filterMap variableName?) : IsIdentifier name := by
  induction values with
  | nil => simp at mem
  | cons value rest ih =>
    cases value with
    | variableRef other span =>
      simp only [filterMap_cons, variableName?, mem_cons] at mem
      rcases mem with rfl | later
      · exact named.1
      · exact ih named.2 later
    | literal | call | binary | not | negate | logical => exact ih named.2 mem

end Expr

namespace Definition

variable {defn : Definition}

theorem Named.body (named : defn.Named) : Stmt.NamedAll (bodyBeforeReturn defn) := by
  unfold Named at named
  rw [Stmt.namedAll_iff] at named ⊢
  intro stmt mem
  apply named stmt
  unfold bodyBeforeReturn at mem
  split at mem
  · exact (dropLast_sublist _).subset mem
  · exact mem

theorem Named.returned (named : defn.Named) : Expr.NamedAll defn.returned := by
  unfold Named at named
  rw [Stmt.namedAll_iff] at named
  unfold Definition.returned finalReturn?
  split
  next values span types isLast =>
    exact named _ (mem_of_getLast? isLast)
  next => trivial

end Definition

theorem plainName_outputName {output : String} (named : IsIdentifier name)
    (outputs : output = name ∨ ∃ ty, output = variantName name [ty]) : plainName output = name := by
  have plain : ∀ char ∈ name.toList, (char != '@') = true := by
    intro char mem
    rw [bne_iff_ne]
    rintro rfl
    obtain ⟨first, rest, chars, isLetter, continues⟩ := named
    rw [chars, mem_cons] at mem
    rcases mem with rfl | later
    · exact absurd isLetter (by decide)
    · exact absurd (continues _ later) (by decide)
  obtain ⟨tail, spelled, noMore⟩ : ∃ tail, output.toList = name.toList ++ tail ∧
      tail.takeWhile (· != '@') = [] := by
    rcases outputs with rfl | ⟨ty, rfl⟩
    · exact ⟨[], by simp, rfl⟩
    · exact ⟨'@' :: ty.name.toList, by simp [variantName], by simp⟩
  rw [plainName, spelled, takeWhile_append_of_pos plain, noMore, append_nil, String.ofList_toList]

namespace Context

variable {ctx : Context} {base : Machine} {offset start stop : Nat} {span : Span}

theorem computesAll_variables (values : List Expr)
    (areVariables : ∀ value ∈ values, value.variableName?.isSome) (named : Expr.NamedAll values)
    (code : base.frame.routine.HasCode offset
      ((values.filterMap Expr.variableName?).map fun name => (.pushVariable name, span))) :
    ctx.ComputesAll base offset (offset + values.length) values.length
      fun locals => ctx.evalExprs locals values := by
  induction values generalizing offset with
  | nil =>
    intro locals held stack scene agrees
    simp only [evalExprs]
    exact .pure ⟨rfl, rfl⟩
  | cons value rest ih =>
    have others := fun other mem => areVariables other (mem_cons_of_mem _ mem)
    cases value with
    | variableRef name place =>
      simp only [filterMap_cons, Expr.variableName?, map_cons, Routine.hasCode_cons] at code
      have restComputed := ih others named.2 code.2
      intro locals held stack scene agrees
      simp only [evalExprs, evalExpr]
      refine (computes_variable named.1 code.1 locals held stack scene agrees).bind
        fun value middle atRest => ?_
      rw [atRest]
      refine (restComputed locals held _ _ agrees).bind ?_
      rintro values last ⟨counted, there⟩
      refine .pure ⟨by simp [counted], ?_⟩
      rw [there, length_cons, Nat.add_right_comm, Nat.add_assoc]
      rfl
    | literal | call | binary | not | negate | logical =>
      cases areVariables _ mem_cons_self

/-- How the code of a routine ends, behind the values of its return. -/
def Closes (definition : Definition) (routine : Routine) (stop : Nat) : Prop :=
  ∃ span, match definition.kind with
    | .function => routine.HasCode stop
        [(.leave, span), (.returnValues definition.returned.length, span)]
    | .procedure =>
        if definition.isMain then ∃ names,
          routine.HasCode stop [(.returnNamed definition.returned.length names, span)] ∧
            names.map plainName = definition.returned.filterMap Expr.variableName?
        else definition.returned = [] ∧ routine.HasCode stop [(.returnValues 0, span)]

/-- The code from a place on computes what a routine returns, and then ends the call. -/
def Returns (context : Context) (base : Machine) (offset : Nat) (definition : Definition) : Prop :=
  ∃ stop, context.ComputesAll base offset stop definition.returned.length
      (fun locals => context.evalExprs locals definition.returned) ∧
    Closes definition base.frame.routine stop

section Returns

variable {defn : Definition} {types : Option (List Ty)} {counters after : Counters}
  {code : List Line}

theorem returns_main (regular : defn.Regular ctx.site.shape?)
    (named : defn.Named) (isMain : defn.isMain = true)
    (returns : defn.finalReturn? = some (.returns defn.returned span types))
    (compiled : compileReturn counters defn = .ok (code, after))
    (placed : base.frame.routine.HasCode offset code) : ctx.Returns base offset defn := by
  have areVariables := regular.main isMain
  obtain ⟨names, succeeds, sameNames, known⟩ :=
    outputNames_succeeds defn.returned (types.getD []) areVariables
  simp only [compileReturn, returns, isMain, if_true, succeeds] at compiled
  cases compiled
  rw [Routine.hasCode_append, length_map] at placed
  have pushes : base.frame.routine.HasCode offset ((defn.returned.filterMap Expr.variableName?).map
        fun name => (.pushVariable name, span)) := by
    rw [← sameNames, map_map]
    exact placed.1
  have plainNames : (names.map Prod.snd).map plainName =
      defn.returned.filterMap Expr.variableName? := by
    rw [← sameNames, map_map]
    apply map_congr_left
    intro entry mem
    refine plainName_outputName (named.returned.isIdentifier ?_) (known entry mem)
    rw [← sameNames]
    exact mem_map_of_mem mem
  have counted : names.length = defn.returned.length := by
    rw [← length_map Prod.fst, sameNames, length_filterMap_eq_countP, countP_eq_length]
    exact areVariables
  refine ⟨offset + defn.returned.length,
    computesAll_variables defn.returned areVariables named.returned pushes, span, ?_⟩
  simp only [Definition.kind_of_isMain isMain, isMain, if_true]
  exact ⟨names.map Prod.snd, counted ▸ placed.2, plainNames⟩

theorem Fits.returns_values (fits : ctx.Fits base)
    (regular : defn.Regular ctx.site.shape?) (named : defn.Named) (notMain : defn.isMain = false)
    (returns : defn.finalReturn? = some (.returns defn.returned span types))
    (compiled : compileReturn counters defn = .ok (code, after))
    (placed : base.frame.routine.HasCode offset code) : ctx.Returns base offset defn := by
  have isFunction : defn.kind = .function := by
    cases kind : defn.kind with
    | function => rfl
    | procedure =>
      rw [regular.silent kind notMain] at returns
      cases returns
  simp only [compileReturn, returns, notMain, Bool.false_eq_true, if_false, compileValues,
    isFunction, if_true, Except.ok.injEq, Prod.mk.injEq] at compiled
  obtain ⟨rfl, rfl⟩ := compiled
  rw [append_assoc, Routine.hasCode_append] at placed
  refine ⟨_, fits.computesAll_exprs _ offset defn.returned regular.values named.returned
    placed.1, span, ?_⟩
  simp only [isFunction]
  exact placed.2

theorem returns_silent (silent : defn.finalReturn? = none) (nothing : defn.returned = [])
    (compiled : compileReturn counters defn = .ok (code, after))
    (placed : base.frame.routine.HasCode offset code) : ctx.Returns base offset defn := by
  refine ⟨offset, ?_, defn.span, ?_⟩
  · intro locals held stack scene agrees
    simp only [nothing, evalExprs]
    exact .pure ⟨rfl, rfl⟩
  · simp only [compileReturn, silent] at compiled
    rw [nothing]
    cases kind : defn.kind with
    | function =>
      have notMain : defn.isMain = false := by simp [Definition.isMain, kind]
      simp only [notMain, kind, Bool.false_eq_true, if_false, if_true] at compiled
      cases compiled
      exact placed
    | procedure =>
      dsimp only
      split
      next isMain =>
        simp only [isMain, if_true] at compiled
        cases compiled
        exact ⟨[], placed, rfl⟩
      next notMain =>
        simp only [notMain, kind, reduceCtorEq, Bool.false_eq_true, if_false] at compiled
        cases compiled
        exact ⟨rfl, placed⟩

theorem Fits.returns (fits : ctx.Fits base) (regular : defn.Regular ctx.site.shape?)
    (named : defn.Named) (compiled : compileReturn counters defn = .ok (code, after))
    (placed : base.frame.routine.HasCode offset code) : ctx.Returns base offset defn := by
  rcases defn.finalReturn?_cases with ⟨span, types, returns⟩ | ⟨silent, nothing⟩
  · cases isMain : defn.isMain with
    | true => exact returns_main regular named isMain returns compiled placed
    | false => exact fits.returns_values regular named isMain returns compiled placed
  · exact returns_silent silent nothing compiled placed

end Returns

theorem Fits.follows_body (fits : ctx.Fits base)
    (regular : defn.Regular ctx.site.shape?) (named : defn.Named)
    {counters between after : Counters} {body ending : List Line}
    (compiledBody : compileBlock counters (bodyBeforeReturn defn) = .ok (body, between))
    (compiledEnding : compileReturn between defn = .ok (ending, after))
    (placed : base.frame.routine.HasCode start (body ++ ending)) :
    ∃ stop, Closes defn base.frame.routine stop ∧
      ∀ args stack scene, Follows ctx.maxDepth base.callers.length ctx.fuel
        (base.resume start (Table.insertAll [] (defn.parameters.zip args)) stack scene)
        (ctx.evalBody defn args)
        fun values last => values.length = defn.returned.length ∧
          ∃ holds, last = base.resume stop holds (stack.pushMany values) last.scene := by
  rw [Routine.hasCode_append] at placed
  have executes := fits.executes_block start _ regular.body named.body compiledBody placed.1
  obtain ⟨stop, computes, closes⟩ := fits.returns regular named compiledEnding placed.2
  refine ⟨stop, closes, fun args stack scene => ?_⟩
  simp only [evalBody]
  refine (executes _ _ stack scene (.refl _)).bind ?_
  rintro locals last ⟨holds, atReturn, agrees, -⟩
  rw [atReturn]
  refine (computes locals holds stack _ agrees).weaken (Nat.le_refl _) (Nat.le_refl _) ?_
  rintro values final ⟨counted, there⟩
  exact ⟨counted, holds, there⟩

end Context

/-! ## Calls -/

namespace Machine

variable {limit stop : Nat} {caller : Machine} {home : CompiledModule} {routine : Routine}
  {args values : List Value} {holds : Bindings} {scene : Scene} {span : Span}

theorem step_returnValues (found : routine.code[stop]? = some (.returnValues values.length, span)) :
    ((caller.enterRoutine home routine args).resume stop holds
      (caller.stack.pushMany values) scene).step limit =
      .next { caller with stack := caller.stack.pushMany values, scene } := by
  rw [step_resume found]
  simp only [execute, withValues, resume, Stack.popMany?_pushMany, finish, enterRoutine,
    Stack.truncate_height]
  rfl

theorem step_returnNamed {names : List String}
    (found : routine.code[stop]? = some (.returnNamed values.length names, span)) :
    ((caller.enterRoutine home routine args).resume stop holds
      (caller.stack.pushMany values) scene).step limit = .next { caller with scene } := by
  rw [step_resume found]
  simp only [execute, withValues, resume, Stack.popMany?_pushMany, finish, enterRoutine,
    Stack.truncate_height]
  rfl

end Machine

namespace Context

variable {ctx : Context}
variable {base : Machine} {fuel : Nat}

theorem follows_modify {offset : Nat} {held : Bindings} {stack : Stack} {scene : Scene}
    {span : Span} {α : Type} {instr : Instruction} {change : Scene → Scene}
    {next : Evaluation α} {ends : α → Machine → Prop}
    (found : base.frame.routine.code[offset]? = some (instr, span))
    (executed : (base.resume (offset + 1) held stack scene).execute ctx.maxDepth instr =
      .next (base.resume (offset + 1) held stack (change scene)))
    (follows : Follows ctx.maxDepth base.callers.length fuel
      (base.resume (offset + 1) held stack (change scene)) next ends) :
    Follows ctx.maxDepth base.callers.length fuel (base.resume offset held stack scene) (do
        modify change
        next) ends := by
  have changes : Follows ctx.maxDepth base.callers.length fuel
      (base.resume offset held stack scene) (modify change : Evaluation PUnit)
      fun _ last => last = base.resume (offset + 1) held stack (change scene) :=
    .ofStep (Nat.le_refl _) ((step_resume found).trans executed) rfl rfl
  refine changes.bind fun _ last there => ?_
  rw [there]
  exact follows

theorem Fits.follows_definition {caller : Machine} {args : List Value}
    (fits : ctx.Fits (caller.enterRoutine home routine args))
    (regular : defn.Regular ctx.site.shape?) (named : defn.Named)
    (compiled : defn.CompilesTo routine) : Follows ctx.maxDepth (caller.callers.length + 1) ctx.fuel
      (caller.enterRoutine home routine args) (ctx.evalDefinition defn args)
      fun values last => values.length = defn.shape.results ∧
        last = { caller with stack := caller.stack.pushMany values, scene := last.scene } := by
  obtain ⟨counters, between, after, body, ending, compiledBody, compiledEnding, placed, -,
    params, -⟩ := compiled.parts
  have entered : caller.enterRoutine home routine args =
      (caller.enterRoutine home routine args).resume 0
        (Table.insertAll [] (defn.parameters.zip args)) caller.stack caller.scene := by
    rw [← params]
    rfl
  rw [entered]
  unfold evalDefinition
  cases kind : defn.kind with
  | procedure =>
    simp only [kind, reduceCtorEq, if_false, nil_append] at placed
    obtain ⟨stop, ⟨span, closes⟩, follows⟩ :=
      fits.follows_body regular named compiledBody compiledEnding placed
    rw [Definition.shape_of_procedure kind]
    refine (follows args caller.stack caller.scene).bind ?_
    rintro values last ⟨counted, holds, atReturn⟩
    rw [atReturn]
    simp only [kind] at closes
    split at closes
    next isMain =>
      obtain ⟨names, returnCode, -⟩ := closes
      rw [← counted] at returnCode
      exact .step (Nat.le_refl _) (step_returnNamed (Routine.hasCode_cons.mp returnCode).1) rfl
        (.pure ⟨rfl, rfl⟩)
    next =>
      obtain ⟨nothing, returnCode⟩ := closes
      rw [nothing, length_nil, length_eq_zero_iff] at counted
      subst counted
      exact .step (Nat.le_refl _) (step_returnValues (Routine.hasCode_cons.mp returnCode).1) rfl
        (.pure ⟨rfl, rfl⟩)
  | function =>
    simp only [kind, if_true, append_assoc, Routine.hasCode_append] at placed
    obtain ⟨stop, ⟨span, closes⟩, follows⟩ := fits.follows_body regular named compiledBody
      compiledEnding (Routine.hasCode_append.mpr placed.2)
    rw [Definition.shape_of_function kind]
    simp only [kind, Routine.hasCode_cons] at closes
    obtain ⟨leave, returnCode, -⟩ := closes
    refine follows_modify (Routine.hasCode_cons.mp placed.1).1 rfl ?_
    refine (follows args caller.stack _).bind ?_
    rintro values last ⟨counted, holds, atLeave⟩
    rw [atLeave]
    refine follows_modify leave rfl ?_
    rw [← counted] at returnCode
    exact .step (Nat.le_refl _) (step_returnValues returnCode) rfl (.pure ⟨counted, rfl⟩)

theorem fits_of_realizes (realizes : Realizes ctx.site defn base.frame.home base.frame.routine)
    (name : ctx.routine = defn.name) (depth : base.depth = ctx.depth)
    (calls : ∃ fuel, ctx.fuel = fuel + 1 ∧ ctx.CallsFollowed fuel) : ctx.Fits base := by
  obtain ⟨_, _, _, _, _, -, -, -, sameName, -, placed⟩ := realizes.compiled.parts
  exact ⟨realizes.linked, sameName.trans name.symm, depth, placed, calls⟩

theorem callsFollowed_evalCall (calls : ctx.call = evalCall ctx.maxDepth fuel (ctx.depth + 1)) :
    ctx.CallsFollowed fuel := by
  induction fuel generalizing ctx with
  | zero =>
    intro site defn home routine args caller _ _ _
    rw [calls]
    exact .exhausted
  | succ fuel ih =>
    intro site defn home routine args caller realizes counted depth
    rw [calls]
    let inner : Context :=
      { site, routine := defn.name, maxDepth := ctx.maxDepth
        depth := ctx.depth + 1
        call := evalCall ctx.maxDepth fuel (ctx.depth + 1 + 1), fuel := fuel + 1 }
    -- the calls inside of this one have less fuel
    have fits : inner.Fits (caller.enterRoutine home routine args) :=
      fits_of_realizes realizes rfl (congrArg (· + 1) depth) ⟨fuel, rfl, ih rfl⟩
    exact fits.follows_definition realizes.regular realizes.named realizes.compiled

end Context

/-! ## Programs -/

/-- A program that has been started follows its evaluation, and ends with its result. -/
theorem Site.follows_start {site : Site} {main : Definition} (limit fuel : Nat) (scene : Scene)
    (found : site.program.definition? "Main" = some main) (isMain : main.isMain = true)
    (realizes : Realizes site main home routine) :
    Follows limit 0 (fuel + 1) (Machine.start home routine scene) (site.evaluate limit fuel)
      fun result last => last.step limit = .done result last.scene := by
  let ctx : Context :=
    { site, routine := main.name, maxDepth := limit, depth := 1
      call := Context.evalCall limit fuel 2, fuel := fuel + 1 }
  have fits : ctx.Fits (Machine.start home routine scene) :=
    Context.fits_of_realizes realizes rfl rfl
      ⟨fuel, rfl, Context.callsFollowed_evalCall rfl⟩
  have isProcedure := Definition.kind_of_isMain isMain
  obtain ⟨counters, between, after, body, ending, compiledBody, compiledEnding, placed, -⟩ :=
    realizes.compiled.parts
  simp only [isProcedure, reduceCtorEq, if_false, nil_append] at placed
  obtain ⟨stop, ⟨span, closes⟩, follows⟩ :=
    fits.follows_body realizes.regular realizes.named compiledBody compiledEnding placed
  simp only [isProcedure, isMain, if_true] at closes
  obtain ⟨names, returnCode, plainNames⟩ := closes
  have evaluated := follows [] .empty scene
  rw [zip_nil_right] at evaluated
  simp only [evaluate, found]
  refine evaluated.bind ?_
  rintro values last ⟨counted, holds, atReturn⟩
  refine .pure ?_
  rw [← counted] at returnCode
  rw [atReturn, step_resume (Routine.hasCode_cons.mp returnCode).1, ← plainNames]
  simp only [execute, withValues, resume, Stack.popMany?_pushMany, finish, Machine.start]

end StoneBoard
