import StoneBoard.Proofs.Linkage

/-!
# The code of expressions

The code of an expression follows its evaluation: it leaves the value on the stack, and the
variables as they are.  Calls of routines are the business of whoever evaluates them; here
it is enough that they are followed with one unit of fuel less, since the call itself is a
step.
-/

namespace StoneBoard

open Machine List

variable {args : List Value}
variable {callee : Builtin}

/-! ## Builtins -/

namespace Builtin

theorem shape_arity (callee : Builtin) : callee.shape.arity = callee.arity := by
  cases callee <;> rfl

theorem forTypes_shape (callee : Builtin) (types : Option (List BasicTy)) :
    (callee.forTypes types).shape = callee.shape := by
  unfold forTypes
  split
  next op ty =>
    split
    next poly =>
      cases op <;> simp only [Operation.isPolymorphic, Bool.false_eq_true] at poly <;> rfl
    next => rfl
  next => rfl

theorem forTypes_arity (callee : Builtin) (types : Option (List BasicTy)) :
    (callee.forTypes types).arity = callee.arity := by
  rw [← shape_arity, forTypes_shape, shape_arity]

theorem results_of_run {before after : Board} {result : Option Value}
    (ran : callee.run args before = .ok (after, result)) :
    result.toList.length = callee.shape.results := by
  cases callee with
  | action | operation =>
    simp only [run, bind_eq_ok, pure_eq_ok, Prod.mk.injEq] at ran
    obtain ⟨_, _, _, rfl⟩ := ran
    rfl
  | variant op ty =>
    simp only [run] at ran
    split at ran
    · cases ran
    · simp only [bind_eq_ok, pure_eq_ok, Prod.mk.injEq] at ran
      obtain ⟨_, _, _, rfl⟩ := ran
      rfl

end Builtin

theorem Evaluation.run_builtin (routine : String) (callee : Builtin) (args : List Value)
    (scene : Scene) : (Evaluation.builtin routine callee args).run.run scene =
      match callee.run args scene.board with
      | .error cause => some (.error cause, scene)
      | .ok (_, some value) => some (.ok [value], scene)
      | .ok (board, none) =>
        let texts := String.intercalate ", " (args.map Value.render)
        some (.ok [],
          ⟨board, scene.log.record routine s!"{callee.name}({texts})" board.head⟩) := by
  have gotten : (get : Evaluation Scene).run.run scene = some (.ok scene, scene) := rfl
  rw [Evaluation.builtin, run_bind, gotten]
  dsimp only
  rcases callee.run args scene.board with cause | ⟨board, _ | value⟩ <;> rfl

/-! ## Calls -/

/-- The machine holds the variables of an evaluation, and may hold hidden ones. -/
def Agrees (locals held : Bindings) : Prop :=
  ∀ name, IsIdentifier name → Table.get? held name = Table.get? locals name

namespace Context

variable {fuel start middle : Nat} {name : String} {value : Value}
  {left right : Bindings → Evaluation Value}
variable {types : Option (List BasicTy)} {shape : Shape} {op : Operation} {done other : Nat}

/-- Whoever runs calls for a context is followed by the machine that a call has just
entered.  It comes back to the caller, with the values on its stack. -/
def CallsFollowed (context : Context) (fuel : Nat) : Prop :=
  ∀ (site : Site) (definition : Definition) (home : CompiledModule) (routine : Routine)
    (arguments : List Value) (caller : Machine),
    Realizes site definition home routine →
    arguments.length = definition.parameters.length → caller.depth = context.depth →
    Follows context.maxDepth (caller.callers.length + 1) fuel
      (caller.enterRoutine home routine arguments) (context.call site definition arguments)
      fun values last => values.length = definition.shape.results ∧
        last = { caller with stack := caller.stack.pushMany values, scene := last.scene }

/-- A machine in the middle of the call that a context tells of. -/
structure Fits (context : Context) (base : Machine) : Prop where
  linked : context.site.LinkedTo base.frame.home
  name : base.frame.routine.name = context.routine
  depth : base.depth = context.depth
  placed : base.frame.routine.Placed
  calls : ∃ fuel, context.fuel = fuel + 1 ∧ context.CallsFollowed fuel

variable {ctx : Context} {base : Machine} {offset : Nat} {held : Bindings} {stack : Stack}
  {scene : Scene} {span : Span}
variable {α : Type} {ends : α → Machine → Prop}

theorem Fits.follows_builtin (fits : ctx.Fits base) {calleeText : String}
    (found : base.frame.routine.code[offset]? = some (.call calleeText args.length, span))
    (notLinked : base.frame.home.exported? calleeText = none)
    (isBuiltin : Builtin.ofName? calleeText = some callee) (arity : callee.arity = args.length) :
    Follows ctx.maxDepth base.callers.length fuel
      (base.resume offset held (stack.pushMany args) scene)
      (Evaluation.builtin ctx.routine callee args)
      fun values last => values.length = callee.shape.results ∧
        last = base.resume (offset + 1) held (stack.pushMany values) last.scene := by
  have stepped : (base.resume offset held (stack.pushMany args) scene).step ctx.maxDepth =
        (base.resume (offset + 1) held (stack.pushMany args) scene).callBuiltin calleeText
          args.length callee := by
    rw [step_resume found]
    simp only [execute, Machine.call, resume, notLinked, isBuiltin]
  have evaluated := Evaluation.run_builtin ctx.routine callee args scene
  simp only [callBuiltin, ne_eq, arity, not_true_eq_false, if_false, withValues, resume,
    Stack.popMany?_pushMany] at stepped
  rcases ran : callee.run args scene.board with cause | ⟨board, _ | value⟩
  · rw [ran] at stepped evaluated
    exact .ofFault (Nat.le_refl _) stepped evaluated
  · rw [ran] at stepped evaluated
    have results := Builtin.results_of_run ran
    have sameName := (Builtin.ofName?_eq_some isBuiltin).2
    simp only [record, fits.name, ← sameName] at stepped
    exact .ofStep (Nat.le_refl _) stepped evaluated ⟨results, rfl⟩
  · rw [ran] at stepped evaluated
    exact .ofStep (Nat.le_refl _) stepped evaluated ⟨Builtin.results_of_run ran, rfl⟩

theorem Fits.follows_invoke (fits : ctx.Fits base) (found : base.frame.routine.code[offset]? =
      some (.call (Compilation.calleeName name types) args.length, span))
    (known : ctx.site.shape? name = some shape) (arity : shape.arity = args.length) :
    Follows ctx.maxDepth base.callers.length ctx.fuel
      (base.resume offset held (stack.pushMany args) scene) (ctx.invoke name types args)
      fun values last => values.length = shape.results ∧
        last = base.resume (offset + 1) held (stack.pushMany values) last.scene := by
  unfold Site.shape? at known
  unfold invoke
  rcases isRoutine : ctx.site.routine? name with _ | ⟨site, defn⟩
  · rw [isRoutine] at known
    obtain ⟨callee, isBuiltin, rfl⟩ := Option.map_eq_some_iff.mp known
    simp only [isBuiltin]
    rw [← Builtin.forTypes_shape callee types]
    refine fits.follows_builtin found (fits.linked.exported?_calleeName isBuiltin types) ?_ ?_
    · rw [Builtin.ofName?_calleeName, isBuiltin, Option.map_some]
    · rw [Builtin.forTypes_arity, ← arity, Builtin.shape_arity]
  · rw [isRoutine] at known
    cases known
    rw [fits.linked.calleeName_eq isRoutine] at found
    obtain ⟨home, routine, exported, realizes⟩ := fits.linked.found isRoutine
    obtain ⟨_, _, _, _, _, _, _, _, _, params, _⟩ := realizes.compiled.parts
    rw [Definition.shape_arity] at arity
    have stepped : (base.resume offset held (stack.pushMany args) scene).step
        ctx.maxDepth = (base.resume (offset + 1) held (stack.pushMany args)
          scene).callRoutine ctx.maxDepth name args.length home routine := by
      rw [step_resume found]
      simp only [execute, Machine.call, resume, exported]
    simp only [callRoutine, params, arity, ne_eq, not_true_eq_false, if_false, withValues,
      resume, Stack.popMany?_pushMany] at stepped
    dsimp only
    rw [← fits.depth]
    split
    next overflow =>
      rw [if_pos overflow] at stepped
      exact .throw (Nat.le_refl _) stepped rfl
    next shallow =>
      rw [if_neg shallow] at stepped
      obtain ⟨fuel, enough, followed⟩ := fits.calls
      rw [enough]
      refine .stepPaid (Nat.le_refl _) stepped rfl ?_
      refine (followed site defn home routine args
        (base.resume (offset + 1) held stack scene) realizes arity.symm fits.depth).weaken
        (Nat.le_refl _) (Nat.le_succ _) ?_
      rintro values last ⟨results, there⟩
      exact ⟨results, there⟩

theorem Fits.follows_operate (fits : ctx.Fits base) (args : List Value)
    (found : base.frame.routine.code[offset]? =
      some (.call (Compilation.calleeName op.name types) args.length, span))
    (arity : op.parameters.length = args.length) : Follows ctx.maxDepth base.callers.length fuel
      (base.resume offset held (stack.pushMany args) scene) (ctx.operate op types args)
      fun value last => last = base.resume (offset + 1) held (stack.push value) last.scene := by
  have isBuiltin : Builtin.ofName? op.name = some (.operation op) :=
    Builtin.ofName?_name (Builtin.operation_mem_all op)
  refine Follows.bind (fits.follows_builtin found
    (fits.linked.exported?_calleeName isBuiltin types) ?_ ?_) ?_
  · rw [Builtin.ofName?_calleeName, isBuiltin, Option.map_some]
  · rw [Builtin.forTypes_arity]
    exact arity
  · rintro values last ⟨results, there⟩
    rw [Builtin.forTypes_shape] at results
    obtain ⟨value, rfl⟩ := List.length_eq_one_iff.mp results
    exact .pure there

/-! ## Expressions -/

def Computes (context : Context) (base : Machine) (start stop : Nat)
    (evaluation : Bindings → Evaluation Value) : Prop :=
  ∀ locals held stack scene, Agrees locals held →
    Follows context.maxDepth base.callers.length context.fuel
      (base.resume start held stack scene) (evaluation locals)
      fun value last => last = base.resume stop held (stack.push value) last.scene

def ComputesAll (context : Context) (base : Machine) (start stop count : Nat)
    (evaluation : Bindings → Evaluation (List Value)) : Prop :=
  ∀ locals held stack scene, Agrees locals held →
    Follows context.maxDepth base.callers.length context.fuel
      (base.resume start held stack scene) (evaluation locals)
      fun values last => values.length = count ∧
        last = base.resume stop held (stack.pushMany values) last.scene

theorem follows_truth {target label : Nat} {next : Bool → Evaluation α}
    (found : base.frame.routine.code[offset]? = some (.jumpIfFalse label, span))
    (labelled : base.frame.routine.target? label = some target)
    (ifTrue : Follows ctx.maxDepth base.callers.length fuel
      (base.resume (offset + 1) held stack scene) (next true) ends)
    (ifFalse : Follows ctx.maxDepth base.callers.length fuel
      (base.resume target held stack scene) (next false) ends) :
    Follows ctx.maxDepth base.callers.length fuel
      (base.resume offset held (stack.push value) scene) (Evaluation.truth value >>= next)
      ends := by
  cases value with
  | bool truth =>
    cases truth with
    | true => exact ifTrue.step (Nat.le_refl _) (step_resume found) rfl
    | false =>
      exact ifFalse.step (Nat.le_refl _) ((step_resume found).trans (jump_resume labelled)) rfl
  | int | color | direction | list => exact .throw (Nat.le_refl _) (step_resume found) rfl

theorem follows_push {eval : Evaluation α}
    (found : base.frame.routine.code[offset]? = some (.pushVariable name, span))
    (known : Table.get? held name = some value)
    (follows : Follows ctx.maxDepth base.callers.length fuel
      (base.resume (offset + 1) held (stack.push value) scene) eval ends) :
    Follows ctx.maxDepth base.callers.length fuel
      (base.resume offset held stack scene) eval ends := by
  refine follows.instruction (Nat.le_refl _) found ?_
  simp only [execute, resume, known]
  rfl

theorem follows_unset (found : base.frame.routine.code[offset]? = some (.pushVariable name, span))
    (unset : Table.get? held name = none) :
    Follows ctx.maxDepth base.callers.length fuel (base.resume offset held stack scene)
      (throw (.uninitializedVariable name) : Evaluation α) ends := by
  have stepped : (base.resume offset held stack scene).step ctx.maxDepth =
      (base.resume (offset + 1) held stack scene).fail (.uninitializedVariable name) := by
    rw [step_resume found]
    simp only [execute, resume, unset]
  exact .throw (Nat.le_refl _) stepped rfl

theorem computes_variable (named : IsIdentifier name)
    (found : base.frame.routine.code[offset]? = some (.pushVariable name, span)) :
    ctx.Computes base offset (offset + 1) (fun locals => Evaluation.variableValue locals name) := by
  intro locals held stack scene agrees
  have sameValue := agrees name named
  simp only [Evaluation.variableValue]
  cases known : Table.get? locals name with
  | none => exact follows_unset found (sameValue.trans known)
  | some value => exact follows_push found (sameValue.trans known) (.pure rfl)

theorem follows_constant
    (found : base.frame.routine.code[offset]? = some (.pushConstant value, span)) :
    Follows ctx.maxDepth base.callers.length fuel (base.resume offset held stack scene) (pure value)
      fun value last => last = base.resume (offset + 1) held (stack.push value) last.scene :=
  .ofStep (Nat.le_refl _) (step_resume found) rfl rfl

theorem Fits.computes_binary (fits : ctx.Fits base) (arity : op.parameters.length = 2)
    (leftCode : ctx.Computes base start middle left)
    (rightCode : ctx.Computes base middle offset right)
    (found : base.frame.routine.code[offset]? = some (.call op.name 2, span)) :
    ctx.Computes base start (offset + 1) (fun locals => do
        let first ← left locals
        let second ← right locals
        ctx.operate op none [first, second]) := by
  intro locals held stack scene agrees
  refine (leftCode locals held stack scene agrees).bind fun first middle atMiddle => ?_
  rw [atMiddle]
  refine (rightCode locals held _ _ agrees).bind fun second last atLast => ?_
  rw [atLast]
  exact fits.follows_operate [first, second] found arity

theorem Fits.computes_unary (fits : ctx.Fits base) (op : Operation)
    (types : Option (List BasicTy)) {operand : Bindings → Evaluation Value}
    (arity : op.parameters.length = 1) (operandCode : ctx.Computes base start offset operand)
    (found : base.frame.routine.code[offset]? =
      some (.call (Compilation.calleeName op.name types) 1, span)) :
    ctx.Computes base start (offset + 1) (fun locals => do
        let value ← operand locals
        ctx.operate op types [value]) := by
  intro locals held stack scene agrees
  refine (operandCode locals held stack scene agrees).bind fun value last atLast => ?_
  rw [atLast]
  exact fits.follows_operate [value] found arity

theorem Fits.computes_and (fits : ctx.Fits base) {short : Nat}
    (leftCode : ctx.Computes base start middle left)
    (test : base.frame.routine.code[middle]? = some (.jumpIfFalse short, span))
    (rightCode : ctx.Computes base (middle + 1) offset right)
    (ending : base.frame.routine.HasCode offset
      [(.jump done, span), (.label short, span), (.pushConstant (.bool false), span),
        (.label done, span)]) : ctx.Computes base start (offset + 4) (fun locals => do
        let first ← left locals
        if ← Evaluation.truth first then right locals else return .bool false) := by
  simp only [Routine.hasCode_cons, Routine.hasCode_nil, and_true] at ending
  obtain ⟨jump, shortLabel, constant, doneLabel⟩ := ending
  have toShort := fits.placed _ _ _ shortLabel
  have toDone := fits.placed _ _ _ doneLabel
  intro locals held stack scene agrees
  refine (leftCode locals held stack scene agrees).bind fun first last atTest => ?_
  rw [atTest]
  refine follows_truth test toShort ?_ ?_
  · refine (rightCode locals held _ _ agrees).andThen fun second last atJump => ?_
    rw [atJump]
    exact .instruction (Nat.le_refl _) jump (jump_resume toDone) (.pure rfl)
  · refine (follows_constant constant).andThen fun second last atDone => ?_
    rw [atDone]
    exact .instruction (Nat.le_refl _) doneLabel rfl (.pure rfl)

theorem Fits.computes_or (fits : ctx.Fits base)
    (leftCode : ctx.Computes base start middle left) (test : base.frame.routine.HasCode middle
      [(.jumpIfFalse other, span), (.pushConstant (.bool true), span), (.jump done, span),
        (.label other, span)]) (rightCode : ctx.Computes base (middle + 4) offset right)
    (ending : base.frame.routine.code[offset]? = some (.label done, span)) :
    ctx.Computes base start (offset + 1) (fun locals => do
        let first ← left locals
        if ← Evaluation.truth first then return .bool true else right locals) := by
  simp only [Routine.hasCode_cons, Routine.hasCode_nil, and_true] at test
  obtain ⟨test, constant, jump, otherLabel⟩ := test
  have toOther := fits.placed _ _ _ otherLabel
  have toDone := fits.placed _ _ _ ending
  intro locals held stack scene agrees
  refine (leftCode locals held stack scene agrees).bind fun first last atTest => ?_
  rw [atTest]
  refine follows_truth test toOther ?_ ?_
  · refine (follows_constant constant).andThen fun second last atJump => ?_
    rw [atJump]
    exact .instruction (Nat.le_refl _) jump (jump_resume toDone) (.pure rfl)
  · refine (rightCode locals held _ _ agrees).andThen fun second last atDone => ?_
    rw [atDone]
    exact .instruction (Nat.le_refl _) ending rfl (.pure rfl)

theorem Fits.computesAll_call (fits : ctx.Fits base) (types : Option (List BasicTy))
    {count : Nat} {args : Bindings → Evaluation (List Value)}
    (argumentsCode : ctx.ComputesAll base start offset count args)
    (known : ctx.site.shape? name = some shape) (arity : shape.arity = count)
    (found : base.frame.routine.code[offset]? =
      some (.call (Compilation.calleeName name types) count, span)) :
    ctx.ComputesAll base start (offset + 1) shape.results (fun locals => do
        let values ← args locals
        ctx.invoke name types values) := by
  intro locals held stack scene agrees
  refine (argumentsCode locals held stack scene agrees).bind ?_
  rintro values last ⟨counted, atCall⟩
  rw [← counted] at found arity
  rw [atCall]
  exact fits.follows_invoke found known arity

theorem Computes.endsAt {stop : Nat} {eval : Bindings → Evaluation Value}
    (computes : ctx.Computes base start stop eval) (same : other = stop) :
    ctx.Computes base start other eval :=
  same ▸ computes

mutual

theorem Fits.computes_expr (fits : ctx.Fits base) (label offset : Nat) :
    (expr : Expr) → expr.Regular ctx.site.shape? → expr.Named →
    base.frame.routine.HasCode offset (Compilation.compileExpr label expr).1 →
    ctx.Computes base offset (offset + (Compilation.compileExpr label expr).1.length)
      fun locals => ctx.evalExpr locals expr
  | .literal value span, _, _, code => by
      simp only [Compilation.compileExpr, Routine.hasCode_cons] at code
      intro locals held stack scene agrees
      simp only [evalExpr]
      exact follows_constant code.1
  | .variableRef name span, _, named, code => by
      simp only [Compilation.compileExpr, Routine.hasCode_cons] at code
      simp only [evalExpr]
      exact computes_variable named code.1
  | .call name args span types, regular, named, code => by
      simp only [Compilation.compileExpr, Routine.hasCode_append, Routine.hasCode_cons] at code
      obtain ⟨argumentsCode, call, -⟩ := code
      have computed := fits.computesAll_exprs label offset args regular.2 named argumentsCode
      have called := fits.computesAll_call types computed regular.1 rfl call
      intro locals held stack scene agrees
      simp only [evalExpr]
      rw [← bind_assoc]
      refine (called locals held stack scene agrees).bind ?_
      rintro values last ⟨results, there⟩
      obtain ⟨value, rfl⟩ := List.length_eq_one_iff.mp results
      refine .pure ?_
      simpa [Compilation.compileExpr, Nat.add_assoc] using there
  | .binary op left right span, regular, named, code => by
      simp only [Compilation.compileExpr, Routine.hasCode_append, Routine.hasCode_cons,
        length_append, ← Nat.add_assoc] at code
      obtain ⟨⟨leftCode, rightCode⟩, call, -⟩ := code
      have leftComputed := fits.computes_expr label offset left regular.1 named.1 leftCode
      have rightComputed := fits.computes_expr _ _ right regular.2 named.2 rightCode
      have arity : op.operation.parameters.length = 2 := by cases op <;> rfl
      rw [BinaryOp.symbol_eq] at call
      simp only [evalExpr]
      refine (fits.computes_binary arity leftComputed rightComputed call).endsAt ?_
      simp [Compilation.compileExpr, Nat.add_assoc]
  | .not operand span, regular, named, code => by
      simp only [Compilation.compileExpr, Routine.hasCode_append, Routine.hasCode_cons] at code
      obtain ⟨operandCode, call, -⟩ := code
      have computed := fits.computes_expr label offset operand regular named operandCode
      simp only [evalExpr]
      refine (fits.computes_unary .not none rfl computed call).endsAt ?_
      simp [Compilation.compileExpr, Nat.add_assoc]
  | .negate operand span type, regular, named, code => by
      simp only [Compilation.compileExpr, Routine.hasCode_append, Routine.hasCode_cons] at code
      obtain ⟨operandCode, call, -⟩ := code
      have computed := fits.computes_expr label offset operand regular named operandCode
      simp only [evalExpr]
      refine (fits.computes_unary .negate _ rfl computed call).endsAt ?_
      simp [Compilation.compileExpr, Nat.add_assoc]
  | .logical .and left right span, regular, named, code => by
      simp only [Compilation.compileExpr, Routine.hasCode_append, length_append,
        ← Nat.add_assoc] at code
      obtain ⟨⟨⟨leftCode, test⟩, rightCode⟩, ending⟩ := code
      have leftComputed := fits.computes_expr _ offset left regular.1 named.1 leftCode
      have rightComputed := fits.computes_expr _ _ right regular.2 named.2 rightCode
      simp only [evalExpr]
      refine (fits.computes_and leftComputed (Routine.hasCode_cons.mp test).1 rightComputed
        ending).endsAt ?_
      simp only [Compilation.compileExpr, length_append, length_cons, length_nil]
      omega
  | .logical .or left right span, regular, named, code => by
      simp only [Compilation.compileExpr, Routine.hasCode_append, length_append,
        ← Nat.add_assoc] at code
      obtain ⟨⟨⟨leftCode, test⟩, rightCode⟩, ending⟩ := code
      have leftComputed := fits.computes_expr _ offset left regular.1 named.1 leftCode
      have rightComputed := fits.computes_expr _ _ right regular.2 named.2 rightCode
      simp only [evalExpr]
      refine (fits.computes_or leftComputed test rightComputed
        (Routine.hasCode_cons.mp ending).1).endsAt ?_
      simp only [Compilation.compileExpr, length_append, length_cons, length_nil]
      omega

theorem Fits.computesAll_exprs (fits : ctx.Fits base) (label offset : Nat) :
    (exprs : List Expr) → Expr.RegularAll ctx.site.shape? exprs → Expr.NamedAll exprs →
    base.frame.routine.HasCode offset (Compilation.compileExprs label exprs).1 →
    ctx.ComputesAll base offset (offset + (Compilation.compileExprs label exprs).1.length)
      exprs.length fun locals => ctx.evalExprs locals exprs
  | [], _, _, _ => by
      intro locals held stack scene agrees
      simp only [evalExprs]
      exact .pure ⟨rfl, rfl⟩
  | first :: rest, regular, named, code => by
      simp only [Compilation.compileExprs, Routine.hasCode_append] at code
      have firstComputed := fits.computes_expr label offset first regular.1 named.1 code.1
      have restComputed := fits.computesAll_exprs _ _ rest regular.2 named.2 code.2
      intro locals held stack scene agrees
      simp only [evalExprs]
      refine (firstComputed locals held stack scene agrees).bind fun value middle atRest => ?_
      rw [atRest]
      refine (restComputed locals held _ _ agrees).bind ?_
      rintro values last ⟨counted, there⟩
      refine .pure ⟨by simp [counted], ?_⟩
      simpa [Compilation.compileExprs, Nat.add_assoc] using there

end

end Context

end StoneBoard
