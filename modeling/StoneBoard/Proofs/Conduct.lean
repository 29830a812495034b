import StoneBoard.Proofs.Analysis
import StoneBoard.Proofs.Faults

/-!
# How accepted programs behave

Evaluation of a program that has been accepted fails for expected causes only.  Whatever is
evaluated leaves the saved states of the board and the open marks of the log as they were,
and only adds to the log.  A function gives as many values as it was checked for; it leaves
the board as it was, and all that it has added to the log is marked as undone.
-/

namespace StoneBoard

variable {args : List Value}

namespace Scene

/-- The log has grown; what had been saved and marked is as it was. -/
structure Grows (before after : Scene) : Prop where
  size : before.board.SameSize after.board
  saved : after.board.saved = before.board.saved
  marks : after.log.marks = before.log.marks
  events : ∃ added, after.log.events.toList = before.log.events.toList ++ added

/-- The board is as it was, and all that has been added to the log has been undone. -/
structure Restores (before after : Scene) : Prop where
  board : after.board = before.board
  marks : after.log.marks = before.log.marks
  events : ∃ added, after.log.events.toList = before.log.events.toList ++ added ∧
    ∀ event ∈ added, event.undone = true

theorem Grows.refl (scene : Scene) : scene.Grows scene :=
  ⟨⟨rfl, rfl⟩, rfl, rfl, [], by simp⟩

theorem Grows.trans {first second third : Scene} (early : first.Grows second)
    (late : second.Grows third) : first.Grows third := by
  obtain ⟨earlyAdded, earlyEvents⟩ := early.events
  obtain ⟨lateAdded, lateEvents⟩ := late.events
  refine ⟨⟨early.size.1.trans late.size.1, early.size.2.trans late.size.2⟩,
    late.saved.trans early.saved, late.marks.trans early.marks, earlyAdded ++ lateAdded, ?_⟩
  rw [lateEvents, earlyEvents, List.append_assoc]

theorem Restores.grows {before after : Scene} (restores : before.Restores after) :
    before.Grows after := by
  obtain ⟨added, events, -⟩ := restores.events
  refine ⟨?_, ?_, restores.marks, added, events⟩ <;> rw [restores.board]
  exact ⟨rfl, rfl⟩

theorem grows_record {scene : Scene} {action : Action} {board : Board}
    (performed : action.perform args scene.board = .ok board) (routine text : String) :
    scene.Grows ⟨board, scene.log.record routine text board.head⟩ := by
  obtain ⟨-, sameSaved, sameSize⟩ :=
    (Action.performs_of_perform performed).transfer ⟨rfl, rfl⟩
  exact ⟨⟨sameSize.1.symm, sameSize.2.symm⟩, sameSaved, rfl, _, Array.toList_push⟩

/-- What happens between saving the board and going back to it is undone. -/
theorem restores_leave {before between : Scene}
    (grows : Grows ⟨before.board.save, before.log.openMark⟩ between) :
    before.Restores ⟨between.board.restore, between.log.closeMark⟩ := by
  obtain ⟨⟨sameWidth, sameHeight⟩, sameSaved, sameMarks, added, events⟩ := grows
  have marks : between.log.marks = before.log.events.size :: before.log.marks := sameMarks
  have saved : between.board.saved =
    ⟨before.board.cells, before.board.head⟩ :: before.board.saved := sameSaved
  have inside : before.log.events.size ≤ between.log.events.size := by
    rw [← Array.length_toList, ← Array.length_toList, events, List.length_append]
    exact Nat.le_add_right _ _
  refine ⟨?_, ?_, added.map BoardEvent.undo, ?_, ?_⟩
  · simp only [Board.restore, Board.restore?, saved, Option.getD_some]
    rw [← sameWidth, ← sameHeight]
    rfl
  · simp only [RunLog.closeMark, marks]
  · simp only [RunLog.closeMark, marks, RunLog.toList_undoFrom inside, events]
    simp [RunLog.openMark]
  · intro event mem
    obtain ⟨orig, -, rfl⟩ := List.mem_map.mp mem
    rfl

end Scene

/-! ## Evaluations -/

namespace Evaluation

/-- An evaluation fails for expected causes only, and ends as promised. -/
def Meets {α : Type} (evaluation : Evaluation α) (promise : Scene → α → Scene → Prop) : Prop :=
  ∀ scene, match evaluation.run.run scene with
    | none => True
    | some (.ok value, after) => promise scene value after
    | some (.error cause, _) => cause.isExpected = true

/-- An evaluation fails for expected causes only, gives good values, and lets the log grow. -/
def Behaves {α : Type} (evaluation : Evaluation α) (good : α → Prop) : Prop :=
  evaluation.Meets fun before value after => good value ∧ before.Grows after

variable {α β : Type}

theorem Meets.mono {eval : Evaluation α} {promise other : Scene → α → Scene → Prop}
    (meets : eval.Meets promise)
    (implies : ∀ before value after, promise before value after → other before value after) :
    eval.Meets other := by
  intro scene
  have holds := meets scene
  split at holds
  · trivial
  · exact implies _ _ _ holds
  · exact holds

namespace Behaves

theorem pure {good : α → Prop} {value : α} (isGood : good value) : Behaves (Pure.pure value) good :=
  fun scene => ⟨isGood, .refl scene⟩

theorem throw {good : α → Prop} {cause : Cause} (expected : cause.isExpected = true) :
    Behaves (MonadExcept.throw cause : Evaluation α) good :=
  fun _ => expected

theorem exhausted {good : α → Prop} : Behaves Evaluation.exhausted good :=
  fun _ => trivial

theorem bind {first : Evaluation α} {next : α → Evaluation β} {good : α → Prop}
    {better : β → Prop} (before : first.Behaves good)
    (after : ∀ value, good value → (next value).Behaves better) :
    (first >>= next).Behaves better := by
  intro scene
  have holds := before scene
  rw [run_bind]
  rcases ended : first.run.run scene with _ | ⟨cause | value, between⟩ <;> rw [ended] at holds
  · trivial
  · exact holds
  · obtain ⟨isGood, grows⟩ := holds
    have later := after value isGood between
    dsimp only
    rcases endedToo : (next value).run.run between with _ | ⟨cause | result, last⟩ <;>
      rw [endedToo] at later
    · trivial
    · exact later
    · exact ⟨later.1, grows.trans later.2⟩

theorem mono {eval : Evaluation α} {good better : α → Prop}
    (behaves : eval.Behaves good) (implies : ∀ value, good value → better value) :
    eval.Behaves better :=
  Meets.mono behaves fun _ value _ holds => ⟨implies value holds.1, holds.2⟩

theorem variableValue (locals : Bindings) (name : String) :
    (Evaluation.variableValue locals name).Behaves fun _ => True := by
  unfold Evaluation.variableValue
  split
  · exact pure trivial
  · exact throw rfl

theorem truth (value : Value) : (Evaluation.truth value).Behaves fun _ => True := by
  unfold Evaluation.truth
  split
  · exact pure trivial
  · exact throw rfl

theorem single {values : List Value} (one : values.length = 1) :
    (Evaluation.single values).Behaves fun _ => True := by
  obtain ⟨value, rfl⟩ := List.length_eq_one_iff.mp one
  exact pure trivial

theorem builtin (routine : String) {callee : Builtin} (listed : callee ∈ Builtin.all)
    (arity : callee.arity = args.length) :
    (Evaluation.builtin routine callee args).Behaves fun values =>
      values.length = callee.shape.results := by
  intro scene
  rw [run_builtin]
  rcases ran : callee.run args scene.board with cause | ⟨board, _ | value⟩
  · exact Cause.isExpected_of_isOperational
      (FailsExpectedly.run listed scene.board arity cause ran)
  · obtain ⟨action, rfl, performed⟩ := Builtin.run_eq_ok_none ran
    exact ⟨Builtin.results_of_run ran, Scene.grows_record performed _ _⟩
  · exact ⟨Builtin.results_of_run ran, .refl scene⟩

end Behaves

end Evaluation

/-! ## Expressions -/

def Definition.Keeps (definition : Definition) (before : Scene) (values : List Value)
    (after : Scene) : Prop :=
  values.length = definition.shape.results ∧ before.Grows after ∧
    (definition.kind = .function → before.Restores after)

namespace Context

/-- A context in a sound program, whose calls end as they should. -/
structure Orderly (context : Context) : Prop where
  sound : context.site.Sound
  modules : ModulesSound context.site.modules
  calls : ∀ (site : Site) (definition : Definition) (arguments : List Value), site.Sound →
    ModulesSound site.modules → definition ∈ site.program.definitions →
    (context.call site definition arguments).Meets definition.Keeps

variable {ctx : Context}

open Evaluation

namespace Orderly

theorem invoke (orderly : ctx.Orderly) {name : String} {types : Option (List BasicTy)}
    {shape : Shape} (known : ctx.site.shape? name = some shape)
    (arity : shape.arity = args.length) : (ctx.invoke name types args).Behaves fun values =>
      values.length = shape.results := by
  unfold Site.shape? at known
  unfold Context.invoke
  cases isRoutine : ctx.site.routine? name with
  | none =>
    rw [isRoutine] at known
    obtain ⟨callee, isBuiltin, rfl⟩ := Option.map_eq_some_iff.mp known
    simp only [isBuiltin]
    rw [← Builtin.forTypes_shape callee types]
    refine .builtin _ (Builtin.forTypes_mem_all (Builtin.ofName?_eq_some isBuiltin).1 types) ?_
    rw [Builtin.forTypes_arity, ← arity, Builtin.shape_arity]
  | some routine =>
    obtain ⟨site, defn⟩ := routine
    rw [isRoutine] at known
    cases known
    obtain ⟨sound, mods, mem, -⟩ := orderly.sound.routine? orderly.modules isRoutine
    dsimp only
    split
    · exact .throw rfl
    · exact (orderly.calls site defn args sound mods mem).mono
        fun _ _ _ holds => ⟨holds.1, holds.2.1⟩

theorem operate (ctx : Context) (op : Operation) (types : Option (List BasicTy))
    (arity : op.parameters.length = args.length) :
    (ctx.operate op types args).Behaves fun _ => True := by
  refine (Behaves.builtin _ (Builtin.forTypes_mem_all (Builtin.operation_mem_all op) types)
    ?_).bind fun values counted => ?_
  · rw [Builtin.forTypes_arity]
    exact arity
  · rw [Builtin.forTypes_shape] at counted
    exact .single counted

theorem operator (op : BinaryOp) : op.operation.parameters.length = 2 := by
  cases op <;> rfl

mutual

theorem expr (orderly : ctx.Orderly) (locals : Bindings) (expr : Expr)
    (regular : expr.Regular ctx.site.shape?) :
    (ctx.evalExpr locals expr).Behaves fun _ => True := by
  match expr with
  | .literal value span => exact .pure trivial
  | .variableRef name span => exact .variableValue locals name
  | .call name args span types =>
    refine (orderly.exprs locals args regular.2).bind fun values counted => ?_
    exact (orderly.invoke regular.1 counted.symm).bind fun results one => .single one
  | .binary op left right span =>
    refine (orderly.expr locals left regular.1).bind fun first _ => ?_
    refine (orderly.expr locals right regular.2).bind fun second _ => ?_
    exact operate ctx _ _ (operator op)
  | .not operand span | .negate operand span type =>
    exact (orderly.expr locals operand regular).bind fun value _ => operate ctx _ _ rfl
  | .logical .and left right span =>
    refine (orderly.expr locals left regular.1).bind fun first _ => ?_
    refine (Behaves.truth first).bind fun holds _ => ?_
    split
    · exact orderly.expr locals right regular.2
    · exact .pure trivial
  | .logical .or left right span =>
    refine (orderly.expr locals left regular.1).bind fun first _ => ?_
    refine (Behaves.truth first).bind fun holds _ => ?_
    split
    · exact .pure trivial
    · exact orderly.expr locals right regular.2

theorem exprs (orderly : ctx.Orderly) (locals : Bindings) (exprs : List Expr)
    (regular : Expr.RegularAll ctx.site.shape? exprs) :
    (ctx.evalExprs locals exprs).Behaves fun values => values.length = exprs.length := by
  match exprs with
  | [] => exact .pure rfl
  | first :: rest =>
    refine (orderly.expr locals first regular.1).bind fun value _ => ?_
    refine (orderly.exprs locals rest regular.2).bind fun values counted => ?_
    exact .pure (congrArg (· + 1) counted)

end

theorem tuple (orderly : ctx.Orderly) (locals : Bindings) {value : Expr} {count : Nat}
    (regular : value.RegularTuple ctx.site.shape? count) :
    (ctx.evalTuple locals value).Behaves fun _ => True := by
  cases value
  case call name args span types =>
    refine (orderly.exprs locals args regular.2).bind fun values counted => ?_
    exact (orderly.invoke regular.1 counted.symm).mono fun _ _ => trivial
  all_goals exact regular.elim

/-! ## Commands -/

theorem whileLoop {test : Bindings → Evaluation Bool} {body : Bindings → Evaluation Bindings}
    (tests : ∀ locals, (test locals).Behaves fun _ => True)
    (repeats : ∀ locals, (body locals).Behaves fun _ => True) (fuel : Nat) (locals : Bindings) :
    (Context.whileLoop test body fuel locals).Behaves fun _ => True := by
  induction fuel generalizing locals with
  | zero => exact .exhausted
  | succ fuel ih =>
    refine (tests locals).bind fun goesOn _ => ?_
    split
    · exact (repeats locals).bind fun locals _ => ih locals
    · exact .pure trivial

theorem repeatLoop (ctx : Context) (index : String) (indexType : Option BasicTy)
    (limit : Value) {body : Bindings → Evaluation Bindings}
    (repeats : ∀ locals, (body locals).Behaves fun _ => True) (fuel : Nat) (locals : Bindings) :
    (ctx.repeatLoop index indexType limit body fuel locals).Behaves fun _ => True := by
  induction fuel generalizing locals with
  | zero => exact .exhausted
  | succ fuel ih =>
    refine (repeats locals).bind fun locals _ => ?_
    refine (Behaves.variableValue locals index).bind fun current _ => ?_
    refine (operate ctx .notEqual none rfl).bind fun unequal _ => ?_
    refine (Behaves.truth unequal).bind fun goesOn _ => ?_
    split
    · exact (operate ctx .next _ rfl).bind fun next _ => ih _
    · exact .pure trivial

mutual

theorem stmt (orderly : ctx.Orderly) (stmt : Stmt) (regular : stmt.Regular ctx.site.shape?)
    (locals : Bindings) : (ctx.execStmt stmt locals).Behaves fun _ => True := by
  match stmt with
  | .skip _ => exact .pure trivial
  | .boom msg span => exact .throw rfl
  | .procedureCall name args span =>
    refine (orderly.exprs locals args regular.2).bind fun values counted => ?_
    exact (orderly.invoke regular.1 counted.symm).bind fun _ _ => .pure trivial
  | .assign name value span =>
    exact (orderly.expr locals value regular).bind fun _ _ => .pure trivial
  | .tupleAssign names value span =>
    exact (orderly.tuple locals regular.2).bind fun _ _ => .pure trivial
  | .ifElse cond thenBranch elseBranch span =>
    refine (orderly.expr locals cond regular.1).bind fun value _ => ?_
    refine (Behaves.truth value).bind fun holds _ => ?_
    split
    · exact orderly.block thenBranch regular.2.1 locals
    · exact orderly.optional elseBranch regular.2.2 locals
  | .whileLoop cond body span =>
    refine whileLoop (fun locals => ?_) (orderly.block body regular.2) ctx.fuel locals
    exact (orderly.expr locals cond regular.1).bind fun value _ => .truth value
  | .repeatWith index lower upper body span indexType =>
    refine (orderly.expr locals lower regular.1).bind fun first _ => ?_
    refine (orderly.expr _ upper regular.2.1).bind fun limit _ => ?_
    refine (operate ctx .lessEqual none rfl).bind fun inRange _ => ?_
    refine (Behaves.truth inRange).bind fun goesOn _ => ?_
    split
    · exact (repeatLoop ctx index indexType limit (orderly.block body regular.2.2) ctx.fuel
        _).bind fun _ _ => .pure trivial
    · exact .pure trivial
  | .caseOf scrutinee branches fallback span =>
    refine (orderly.expr locals scrutinee regular.1).bind fun subject _ => ?_
    exact orderly.branches subject branches regular.2.1 (orderly.optional fallback regular.2.2)
      locals
  | .block body span => exact orderly.block body regular locals
  | .returns values span types => exact regular.elim

theorem block (orderly : ctx.Orderly) (body : List Stmt)
    (regular : Stmt.RegularAll ctx.site.shape? body) (locals : Bindings) :
    (ctx.execBlock body locals).Behaves fun _ => True := by
  match body with
  | [] => exact .pure trivial
  | first :: rest =>
    exact (orderly.stmt first regular.1 locals).bind fun locals _ =>
      orderly.block rest regular.2 locals

theorem optional (orderly : ctx.Orderly) (body : Option (List Stmt))
    (regular : Stmt.RegularOptional ctx.site.shape? body) (locals : Bindings) :
    (ctx.execOptional body locals).Behaves fun _ => True := by
  match body with
  | none => exact .pure trivial
  | some body => exact orderly.block body regular locals

theorem branches (orderly : ctx.Orderly) (subject : Value) (branches : List Branch)
    (regular : Stmt.RegularBranches ctx.site.shape? branches)
    {otherwise : Bindings → Evaluation Bindings}
    (otherwiseBehaves : ∀ locals, (otherwise locals).Behaves fun _ => True)
    (locals : Bindings) :
    (ctx.execBranches subject branches otherwise locals).Behaves fun _ => True := by
  match branches with
  | [] => exact otherwiseBehaves locals
  | .on literals body span :: rest =>
    rw [execBranches]
    split
    · exact orderly.block body regular.1 locals
    · exact orderly.branches subject rest regular.2 otherwiseBehaves locals

end

/-! ## Routines -/

theorem body (orderly : ctx.Orderly) {defn : Definition}
    (regular : defn.Regular ctx.site.shape?) (args : List Value) :
    (ctx.evalBody defn args).Behaves fun values =>
      values.length = defn.returned.length := by
  refine (orderly.block _ regular.body _).bind fun locals _ => ?_
  exact orderly.exprs locals defn.returned regular.values

theorem definition (orderly : ctx.Orderly) {defn : Definition}
    (regular : defn.Regular ctx.site.shape?) (args : List Value) :
    (ctx.evalDefinition defn args).Meets defn.Keeps := by
  have behaves := orderly.body regular args
  unfold evalDefinition
  cases kind : defn.kind with
  | procedure =>
    have silent : (do
        let _ ← ctx.evalBody defn args
        return [] : Evaluation (List Value)).Behaves fun values => values.length = 0 :=
      behaves.bind fun _ _ => .pure rfl
    refine Meets.mono silent fun _ _ _ holds => ⟨?_, holds.2, by simp [kind]⟩
    rw [Definition.shape_of_procedure kind]
    exact holds.1
  | function =>
    intro scene
    have entered : (modify fun scene => ⟨scene.board.save, scene.log.openMark⟩ :
        Evaluation Unit).run.run scene =
      some (.ok (), ⟨scene.board.save, scene.log.openMark⟩) := rfl
    have holds := behaves ⟨scene.board.save, scene.log.openMark⟩
    rw [run_bind, entered]
    dsimp only
    rw [run_bind]
    rcases ended : (ctx.evalBody defn args).run.run
        ⟨scene.board.save, scene.log.openMark⟩ with _ | ⟨cause | values, between⟩ <;>
      rw [ended] at holds
    · trivial
    · exact holds
    · -- the body only adds to what was saved and marked before it, and that is taken back here
      have restores := Scene.restores_leave holds.2
      refine ⟨?_, restores.grows, fun _ => restores⟩
      rw [Definition.shape_of_function kind]
      exact holds.1

end Orderly

theorem meets_evalCall (maxDepth fuel depth : Nat) {site : Site} {defn : Definition}
    (sound : site.Sound) (mods : ModulesSound site.modules)
    (mem : defn ∈ site.program.definitions) (args : List Value) :
    (evalCall maxDepth fuel depth site defn args).Meets defn.Keeps := by
  induction fuel generalizing depth site defn args with
  | zero => exact fun _ => trivial
  | succ fuel ih =>
    refine Orderly.definition ⟨sound, mods, ?_⟩ (sound.regular defn mem).1 args
    intro site defn args sound mods mem
    exact ih (depth + 1) sound mods mem args

end Context

theorem Site.behaves_evaluate {site : Site} {main : Definition} (sound : site.Sound)
    (mods : ModulesSound site.modules) (found : site.program.definition? "Main" = some main)
    (maxDepth fuel : Nat) : (site.evaluate maxDepth fuel).Behaves fun _ => True := by
  have mem := List.mem_of_find?_eq_some found
  rw [evaluate, found]
  refine (Context.Orderly.body ⟨sound, mods, ?_⟩ (sound.regular main mem).1 []).bind
    fun _ _ => .pure trivial
  intro site defn args sound mods mem
  exact Context.meets_evalCall maxDepth fuel 2 sound mods mem args

end StoneBoard
