import StoneBoard.Proofs.Comparison
import StoneBoard.Proofs.Constancy

/-!
# Loops over a range

A loop over a range enters its body once for every value from its first bound to its second one,
in their order, and forgets its index in the end.  Each time the index is told apart from the
second bound before it is moved on, so that it does not run around the circle of a finite type.
Bounds of different types are refused before the body is entered.
-/

namespace StoneBoard

open Machine Compilation Library List

variable {index : String} {span : Span} {type : Option BasicTy} {layout : LoopLayout}
  {machine first : Machine} {offset maxDepth count : Nat} {seen : List LoopEvent}
variable {callers : List Frame} {second third base : Machine} {held : Bindings} {stack : Stack}
  {scene : Scene} {routine : Routine} {answer : Bool}

/-! ## Values in their order -/

/-- The value of a basic type with an ordinal. -/
structure Value.IsAt (type : BasicTy) (ordinal : Int) (value : Value) : Prop where
  type : value.basicTy? = some type
  ordinal : value.ordinals = [ordinal]

namespace Value.IsAt

variable {type : BasicTy} {low high : Int} {value limit : Value}

/-- There is no way around the circle below a larger value of the same type. -/
theorem next (isValue : value.IsAt type low) (isLimit : limit.IsAt type high) (less : low < high) :
    value.next.IsAt type (low + 1) := by
  obtain ⟨isType, isLow⟩ := isValue
  obtain ⟨sameType, isHigh⟩ := isLimit
  cases value <;> cases isType
  case int =>
    cases isLow
    exact ⟨rfl, rfl⟩
  -- the other types are finite
  all_goals
    cases limit <;> cases sameType
    rename_i value limit
    cases value <;> cases limit <;> cases isLow <;> cases isHigh <;>
      first | exact ⟨rfl, rfl⟩ | exact absurd less (by decide)

theorem relation (isValue : value.IsAt type low) (isLimit : limit.IsAt type high)
    (holds : Ordering → Bool) :
    StoneBoard.relation holds value limit = .ok (.bool (holds (compare low high))) := by
  rw [StoneBoard.relation, compare?_of_alike (.scalars isValue.type isLimit.type), isValue.ordinal,
    isLimit.ordinal, List.compare_cons_cons]
  simp

theorem notEqual (isValue : value.IsAt type low) (isLimit : limit.IsAt type high) (board : Board) :
    Operation.notEqual.apply [value, limit] board = .ok (.bool (low ≠ high)) := by
  refine (isValue.relation isLimit _).trans (congrArg (Except.ok ∘ Value.bool) ?_)
  rw [Bool.eq_iff_iff]
  simp

theorem lessEqual (isValue : value.IsAt type low) (isLimit : limit.IsAt type high) (board : Board) :
    Operation.lessEqual.apply [value, limit] board = .ok (.bool (low ≤ high)) := by
  refine (isValue.relation isLimit _).trans (congrArg (Except.ok ∘ Value.bool) ?_)
  rw [Bool.eq_iff_iff]
  simp [compare_gt_iff_gt]

theorem eq_int (isValue : value.IsAt .int low) : value = .int low := by
  obtain ⟨isInt, isLow⟩ := isValue
  cases value <;> cases isInt
  cases isLow
  rfl

end Value.IsAt

theorem relation_of_ne {first second : Value} (differ : first.basicTy? ≠ second.basicTy?)
    (holds : Ordering → Bool) :
    relation holds first second = .error (.incomparableValues first.typeName second.typeName) := by
  rw [relation, Value.compare?_of_not_alike (mt Value.alike_iff.mp differ)]

/-! ## The code of a loop -/

structure LoopLayout where
  /-- the hidden variable that holds the second bound -/
  limit : String
  /-- the code of the first bound begins -/
  front : Nat
  /-- the first bound is on the stack -/
  lowerEnd : Nat
  /-- the second bound is on the stack -/
  upperEnd : Nat
  /-- the code of the body begins -/
  start : Nat
  /-- the code of the body ends -/
  stop : Nat
  /-- the code of the loop ends -/
  behind : Nat

namespace Routine

variable {routine : Routine}
variable {lower upper : Expr} {body : List Stmt}

inductive LaysOut (routine : Routine) : Stmt → LoopLayout → Prop
  | intro {index : String} {lower upper : Expr} {body : List Stmt} {span : Span}
      {type : Option BasicTy} {counters inner middle after : Counters}
      {lowerCode upperCode bodyCode : List Line} {front lowerEnd upperEnd stop : Nat}
      (compiledLower : compileValue (counters.takeHidden.takeLabels 2) lower = (lowerCode, inner))
      (compiledUpper : compileValue inner upper = (upperCode, middle))
      (compiledBody : compileBlock middle body = .ok (bodyCode, after))
      (stands : routine.HasCode front ((loopHead counters index lower upper span).1 ++ bodyCode ++
        loopTail counters index span type))
      (isLowerEnd : lowerEnd = front + lowerCode.length)
      (isUpperEnd : upperEnd = lowerEnd + 1 + upperCode.length)
      (isStop : stop = upperEnd + 6 + bodyCode.length) :
      LaysOut routine (.repeatWith index lower upper body span type)
        ⟨counters.hiddenName, front, lowerEnd, upperEnd, upperEnd + 6, stop, stop + 10⟩

theorem HasStmt.laysOut (stands : routine.HasStmt (.repeatWith index lower upper body span type)) :
    ∃ layout, routine.LaysOut (.repeatWith index lower upper body span type) layout := by
  obtain ⟨offset, counters, code, after, compiled, stands⟩ := stands
  obtain ⟨bodyCode, compiledBody, rfl⟩ := compileStmt_repeatWith compiled
  exact ⟨_, .intro rfl rfl compiledBody stands rfl rfl rfl⟩

structure LoopParts (routine : Routine) (index : String) (type : Option BasicTy) (span : Span)
    (layout : LoopLayout) : Prop where
  different : layout.limit ≠ index
  order : layout.front ≤ layout.lowerEnd ∧ layout.lowerEnd < layout.upperEnd ∧
    layout.start = layout.upperEnd + 6 ∧ layout.start ≤ layout.stop ∧
    layout.behind = layout.stop + 10
  lower : routine.Encloses [] layout.front layout.lowerEnd
  setIndex : routine.code[layout.lowerEnd]? = some (.assign index, span)
  upper : routine.Encloses [index] (layout.lowerEnd + 1) layout.upperEnd
  setLimit : routine.code[layout.upperEnd]? = some (.assign layout.limit, span)
  body : routine.Encloses [index, layout.limit] layout.start layout.stop
  tests : ∃ done, routine.target? done = some (layout.stop + 9) ∧
    routine.HasCode (layout.upperEnd + 1)
      (loopTest index layout.limit Operation.lessEqual.name done span) ∧
    routine.HasCode layout.stop
      (loopTest index layout.limit Operation.notEqual.name done span)
  label : ∃ again, routine.code[layout.upperEnd + 5]? = some (.label again, span) ∧
    routine.code[layout.stop + 7]? = some (.jump again, span) ∧
    routine.target? again = some layout.start
  advance : routine.HasCode (layout.stop + 4) (loopAdvance index type span)
  forget : routine.code[layout.stop + 9]? = some (.deleteVariable index, span)

theorem encloses_value (placed : routine.Placed) {start : Nat} (counters : Counters) (value : Expr)
    (stands : routine.HasCode start (compileValue counters value).1) {names : List String}
    (identifiers : ∀ name ∈ names, IsIdentifier name) :
    routine.Encloses names start (start + (compileValue counters value).1.length) := by
  have computes := computes_value counters value
  have gentle := computes.quiet.gentle names 0
  exact encloses_of_numbered placed stands computes.numbered fun line mem =>
    ⟨(gentle line mem).1, gentle.unwritten identifiers line mem⟩

theorem LaysOut.parts
    (laysOut : routine.LaysOut (.repeatWith index lower upper body span type) layout)
    (placed : routine.Placed) {shapes : String → Option Shape} {fixed : List String}
    (tame : Stmt.Tame shapes fixed (.repeatWith index lower upper body span type)) :
    routine.LoopParts index type span layout := by
  obtain @⟨_, _, _, _, _, _, counters, inner, middle, after, lowerCode, upperCode, bodyCode, front,
    _, _, _, compiledLower, compiledUpper, compiledBody, stands, rfl, rfl, rfl⟩ := laysOut
  have isHead : loopHead counters index lower upper span =
      (lowerCode ++ [(.assign index, span)] ++ upperCode ++ [(.assign counters.hiddenName, span)] ++
        loopTest index counters.hiddenName Operation.lessEqual.name (counters.label + 1) span ++
        [(.label counters.label, span)], middle) := by
    simp only [loopHead, compiledLower, compiledUpper]
  have isIdentifier := tame.named.1
  have bodyEncloses :=
    (HasLoop.intro (by rw [isHead]; exact compiledBody) stands).encloses placed tame
  rw [isHead] at stands bodyEncloses
  simp only [hasCode_append, hasCode_cons, hasCode_nil, and_true, loopTail, length_append,
    length_cons, length_nil, loopTest, loopAdvance, ← Nat.add_assoc,
    Nat.zero_add] at stands bodyEncloses
  obtain ⟨⟨⟨⟨⟨⟨⟨lowerStands, setIndex⟩, upperStands⟩, setLimit⟩, firstTest⟩, again⟩, -⟩,
    ⟨lastTest, advance⟩, back, done, forget⟩ := stands
  have lowerEncloses := encloses_value placed (counters.takeHidden.takeLabels 2) lower
    (by rw [compiledLower]; exact lowerStands) (forall_mem_nil _)
  have upperEncloses := encloses_value placed inner upper
    (by rw [compiledUpper]; exact upperStands) (List.forall_mem_singleton.mpr isIdentifier)
  rw [compiledLower] at lowerEncloses
  rw [compiledUpper] at upperEncloses
  refine ⟨counters.hiddenName_ne isIdentifier, ⟨by dsimp only; omega, by dsimp only; omega, rfl,
    by dsimp only; omega, rfl⟩, lowerEncloses, setIndex, upperEncloses, setLimit, bodyEncloses,
    ⟨_, placed _ _ _ done, ?_, ?_⟩, ⟨_, again, back, placed _ _ _ again⟩, ?_, forget⟩
  · simpa only [loopTest, hasCode_cons, hasCode_nil, and_true] using firstTest
  · simpa only [loopTest, hasCode_cons, hasCode_nil, and_true] using lastTest
  · simpa only [loopAdvance, hasCode_cons, hasCode_nil, and_true] using advance

end Routine

/-! ## Steps through the code of a loop -/

namespace Machine

/-- A machine comes to an offset in the same call, for the first time. -/
structure Reaches (maxDepth : Nat) (first : Machine) (offset : Nat) (last : Machine) : Prop where
  steps : Until maxDepth (fun machine => machine.callers.length = first.callers.length ∧
    machine.frame.offset = offset) first last
  depth : last.callers.length = first.callers.length
  offset : last.frame.offset = offset

theorem Covers.here {good : Frame → Prop} (covers : machine.Covers callers good)
    (same : machine.callers.length = callers.length) :
    machine.callers = callers ∧ good machine.frame := by
  obtain ⟨inner, frame, split, isGood⟩ := covers
  cases inner with
  | nil =>
    obtain ⟨rfl, sameCallers⟩ := List.cons.inj split
    exact ⟨sameCallers, isGood⟩
  | cons top rest =>
    have sameCallers : machine.callers = rest ++ frame :: callers := (List.cons.inj split).2
    rw [sameCallers, length_append, length_cons] at same
    omega

section Operate

variable {site : Site} {base : Machine} {maxDepth offset : Nat} {held : Bindings} {stack : Stack}
  {scene : Scene} {op : Operation} {types : Option (List BasicTy)} {args : List Value}
  {span : Span}
variable {name : String} {value : Value}
variable {rest : Stack}

theorem step_push (found : base.frame.routine.code[offset]? = some (.pushVariable name, span))
    (known : Table.get? held name = some value) :
    (base.resume offset held stack scene).step maxDepth =
      .next (base.resume (offset + 1) held (stack.push value) scene) := by
  rw [step_resume found]
  simp only [execute, resume, known]
  rfl

theorem step_assign (found : base.frame.routine.code[offset]? = some (.assign name, span))
    (popped : stack.pop? = some (value, rest)) :
    (base.resume offset held stack scene).step maxDepth =
      .next (base.resume (offset + 1) (Table.insert held name value) rest scene) := by
  rw [step_resume found]
  simp only [execute, withTop, resume, popped]
  rfl

theorem resume_of_offset (atOffset : base.frame.offset = offset) :
    base.resume offset base.frame.locals base.stack base.scene = base := by
  rw [← atOffset]
  rfl

theorem step_bind (atOffset : base.frame.offset = offset)
    (found : base.frame.routine.code[offset]? = some (.assign name, span))
    (popped : base.stack.pop? = some (value, rest)) :
    base.step maxDepth = .next (base.resume (offset + 1)
      (Table.insert base.frame.locals name value) rest base.scene) := by
  have stepped : (base.resume offset base.frame.locals base.stack base.scene).step maxDepth = _ :=
    step_assign found popped
  rwa [resume_of_offset atOffset] at stepped

theorem step_operate (linked : site.LinkedTo base.frame.home)
    (found : base.frame.routine.code[offset]? =
      some (.call (calleeName op.name types) args.length, span))
    (arity : op.parameters.length = args.length) :
    (∀ value, ((Builtin.operation op).forTypes types).run args scene.board =
        .ok (scene.board, some value) →
      (base.resume offset held (stack.pushMany args) scene).step maxDepth =
        .next (base.resume (offset + 1) held (stack.push value) scene)) ∧
    ∀ cause, ((Builtin.operation op).forTypes types).run args scene.board = .error cause →
      ∃ error, (base.resume offset held (stack.pushMany args) scene).step maxDepth =
        .fault error scene ∧ error.cause = cause := by
  have isBuiltin : Builtin.ofName? op.name = some (.operation op) :=
    Builtin.ofName?_name (Builtin.operation_mem_all op)
  have notLinked := linked.exported?_calleeName isBuiltin types
  have isCallee : Builtin.ofName? (calleeName op.name types) =
      some ((Builtin.operation op).forTypes types) := by
    rw [Builtin.ofName?_calleeName, isBuiltin, Option.map_some]
  have sameArity : ((Builtin.operation op).forTypes types).arity = args.length := by
    rw [Builtin.forTypes_arity]
    exact arity
  rw [step_resume found]
  simp only [execute, Machine.call, resume, notLinked, isCallee, callBuiltin, sameArity, ne_eq,
    not_true_eq_false, if_false, withValues, Stack.popMany?_pushMany]
  constructor
  · intro value ran
    simp only [ran]
    rfl
  · intro cause ran
    simp only [ran]
    exact ⟨_, rfl, rfl⟩

end Operate

structure SameCall (first last : Machine) : Prop where
  callers : last.callers = first.callers
  home : last.frame.home = first.frame.home
  routine : last.frame.routine = first.frame.routine

theorem SameCall.refl (machine : Machine) : machine.SameCall machine := ⟨rfl, rfl, rfl⟩

theorem SameCall.trans (early : first.SameCall second) (late : second.SameCall third) :
    first.SameCall third :=
  ⟨late.callers.trans early.callers, late.home.trans early.home, late.routine.trans early.routine⟩

theorem SameCall.resume (same : first.SameCall base) :
    first.SameCall (base.resume offset held stack scene) := ⟨same.callers, same.home, same.routine⟩

end Machine

/-- What is seen of a loop from outside: a run of its body begins or ends, with a value of the
index. -/
inductive LoopEvent where
  | begins (index : Option Value)
  | ends (index : Option Value)

namespace LoopLayout

def events (layout : LoopLayout) (index : String) (depth : Nat) (machine : Machine) :
    List LoopEvent :=
  if machine.callers.length = depth then
    let value := Table.get? machine.frame.locals index
    (if machine.frame.offset = layout.start then [.begins value] else []) ++
      (if machine.frame.offset = layout.stop then [.ends value] else [])
  else []

def Over (layout : LoopLayout) (depth : Nat) (machine : Machine) : Prop :=
  machine.callers.length = depth ∧ machine.frame.offset = layout.behind

/-- Steps that are taken until a loop is over, and what is seen in front of each of them. -/
inductive Passes (layout : LoopLayout) (maxDepth : Nat) (index : String) (depth : Nat) :
    List LoopEvent → Machine → Machine → Prop
  | refl (machine : Machine) : Passes layout maxDepth index depth [] machine machine
  | head {seen : List LoopEvent} {first second last : Machine}
      (goesOn : ¬ layout.Over depth first) (stepped : first.step maxDepth = .next second)
      (rest : Passes layout maxDepth index depth seen second last) :
      Passes layout maxDepth index depth (layout.events index depth first ++ seen) first last

section Passes

variable {layout : LoopLayout} {maxDepth depth : Nat} {index : String}
variable {second last : Machine} {stop start : Nat} {names : List String}

theorem Passes.trans {early late : List LoopEvent}
    (before : layout.Passes maxDepth index depth early first second)
    (after : layout.Passes maxDepth index depth late second third) :
    layout.Passes maxDepth index depth (early ++ late) first third := by
  induction before with
  | refl => exact after
  | head goesOn stepped _ ih =>
    rw [append_assoc]
    exact .head goesOn stepped (ih after)

def Quiet (layout : LoopLayout) (offset : Nat) : Prop :=
  offset ≠ layout.start ∧ offset ≠ layout.stop ∧ offset ≠ layout.behind

theorem events_of_quiet
    (quiet : machine.callers.length = depth → layout.Quiet machine.frame.offset) :
    layout.events index depth machine = [] := by
  unfold events
  split
  next here =>
    obtain ⟨notStart, notStop, -⟩ := quiet here
    simp only [if_neg notStart, if_neg notStop, append_nil]
  next => rfl

theorem Passes.quiet (quiet : first.callers.length = depth → layout.Quiet first.frame.offset)
    (stepped : first.step maxDepth = .next second)
    (rest : layout.Passes maxDepth index depth seen second last) :
    layout.Passes maxDepth index depth seen first last := by
  have nothing : layout.events index depth first = [] := events_of_quiet quiet
  have step := Passes.head (fun isOver => (quiet isOver.1).2.2 isOver.2) stepped rest
  rwa [nothing, nil_append] at step

theorem Passes.of_until {home : CompiledModule} {locals : Bindings}
    (encloses : routine.Encloses names start stop)
    (quiet : ∀ offset, start < offset → offset < stop → layout.Quiet offset)
    (steps : Until maxDepth (fun machine => machine.callers.length = callers.length ∧
      machine.frame.offset = stop) first last)
    (begins : first.Covers callers (Within home routine names locals start stop)) :
    layout.Passes maxDepth index callers.length [] first last := by
  induction steps with
  | refl => exact .refl _
  | head goesOn stepped _ ih =>
    refine .quiet (fun same => ?_) stepped
      (ih (Until.within encloses (.head goesOn stepped (.refl _)) begins))
    obtain ⟨-, within⟩ := begins.here same
    exact quiet _ within.above
      (Nat.lt_of_le_of_ne within.below fun atStop => goesOn ⟨same, atStop⟩)

variable (index) in
/-- A stretch of code that is walked through from its first place: what is seen there, if there is
anything in the stretch, is all that is seen. -/
theorem Passes.of_reaches (encloses : first.frame.routine.Encloses names start stop)
    (atStart : first.frame.offset = start) (le : start ≤ stop) (before : start < layout.behind)
    (quiet : ∀ offset, start < offset → offset < stop → layout.Quiet offset)
    (reaches : first.Reaches maxDepth stop last) : (start = stop ∧ last = first ∨
      start < stop ∧ layout.Passes maxDepth index first.callers.length
        (layout.events index first.callers.length first) first last) ∧
    first.SameCall last ∧
      ∀ name ∈ names, Table.get? last.frame.locals name = Table.get? first.frame.locals name := by
  obtain ⟨steps, sameDepth, atStop⟩ := reaches
  have keeps : Machine.Keeps first.frame.routine names first.frame.locals first.frame :=
    ⟨rfl, fun _ _ => rfl⟩
  cases steps with
  | refl => exact ⟨.inl ⟨atStart.symm.trans atStop, rfl⟩, ⟨rfl, rfl, rfl⟩, keeps.values⟩
  | head goesOn stepped rest =>
    have less : start < stop :=
      Nat.lt_of_le_of_ne le fun same => goesOn ⟨rfl, atStart.trans same⟩
    have begins := keeps.within encloses (Nat.le_of_eq atStart.symm) (atStart ▸ less) stepped
    have passes : layout.Passes maxDepth index first.callers.length [] _ last :=
      .of_until encloses quiet rest begins
    obtain ⟨sameCallers, within⟩ := (rest.within encloses begins).here sameDepth
    refine ⟨.inr ⟨less, ?_⟩, ⟨sameCallers, within.home, within.keeps.routine⟩, within.keeps.values⟩
    have seen := Passes.head (fun isOver => Nat.ne_of_lt before (atStart.symm.trans isOver.2))
      stepped passes
    rwa [append_nil] at seen

variable (index) in
theorem Passes.unseen (encloses : first.frame.routine.Encloses names start stop)
    (atStart : first.frame.offset = start) (le : start ≤ stop) (before : start < layout.behind)
    (quiet : ∀ offset, start ≤ offset → offset < stop → layout.Quiet offset)
    (reaches : first.Reaches maxDepth stop last) :
    layout.Passes maxDepth index first.callers.length [] first last ∧ first.SameCall last ∧
      ∀ name ∈ names, Table.get? last.frame.locals name = Table.get? first.frame.locals name := by
  obtain ⟨walked, sameCall, keeps⟩ := Passes.of_reaches index encloses atStart le before
    (fun offset above => quiet offset (Nat.le_of_lt above)) reaches
  refine ⟨?_, sameCall, keeps⟩
  rcases walked with ⟨-, rfl⟩ | ⟨proper, passes⟩
  · exact .refl _
  · rwa [events_of_quiet fun _ => atStart ▸ quiet start (Nat.le_refl _) proper] at passes

theorem Passes.step (quiet : layout.Quiet offset)
    (stepped : (base.resume offset held stack scene).step maxDepth = .next second)
    (rest : layout.Passes maxDepth index depth seen second last) :
    layout.Passes maxDepth index depth seen (base.resume offset held stack scene) last :=
  .quiet (fun _ => quiet) stepped rest

section Test

variable {site : Site} {base : Machine} {offset done target : Nat} {limit : String} {span : Span}
  {op : Operation} {held : Bindings} {stack : Stack} {scene : Scene} {value bound : Value}

theorem Passes.comparison (quiet : layout.Quiet (offset + 1)) (before : offset ≠ layout.behind)
    (code : base.frame.routine.HasCode offset (loopTest index limit op.name done span))
    (atIndex : Table.get? held index = some value) (atLimit : Table.get? held limit = some bound) :
    layout.Passes maxDepth index base.callers.length
      (layout.events index base.callers.length (base.resume offset held stack scene))
      (base.resume offset held stack scene)
      (base.resume (offset + 2) held (stack.pushMany [value, bound]) scene) := by
  simp only [loopTest, Routine.hasCode_cons] at code
  obtain ⟨pushIndex, pushLimit, -⟩ := code
  have second : layout.Passes maxDepth index base.callers.length []
      (base.resume (offset + 1) held (stack.push value) scene)
      (base.resume (offset + 2) held (stack.pushMany [value, bound]) scene) :=
    .step quiet (step_push pushLimit atLimit) (.refl _)
  have both := Passes.head (fun isOver => before isOver.2) (step_push pushIndex atIndex) second
  rwa [append_nil] at both

theorem Passes.test (linked : site.LinkedTo base.frame.home) (arity : op.parameters.length = 2)
    (quiet : ∀ place, offset < place → place < offset + 4 → layout.Quiet place)
    (before : offset ≠ layout.behind)
    (code : base.frame.routine.HasCode offset (loopTest index limit op.name done span))
    (toDone : base.frame.routine.target? done = some target)
    (atIndex : Table.get? held index = some value) (atLimit : Table.get? held limit = some bound)
    (applied : op.apply [value, bound] scene.board = .ok (.bool answer)) :
    layout.Passes maxDepth index base.callers.length
      (layout.events index base.callers.length (base.resume offset held stack scene))
      (base.resume offset held stack scene)
      (base.resume (if answer then offset + 4 else target) held stack scene) := by
  have compared : layout.Passes maxDepth index base.callers.length
      (layout.events index base.callers.length (base.resume offset held stack scene))
      (base.resume offset held stack scene) _ :=
    .comparison (quiet _ (by omega) (by omega)) before code atIndex atLimit
  simp only [loopTest, Routine.hasCode_cons] at code
  obtain ⟨-, -, comparison, test, -⟩ := code
  have ran : ((Builtin.operation op).forTypes none).run [value, bound] scene.board =
      .ok (scene.board, some (.bool answer)) := by
    simp only [Builtin.forTypes, Builtin.run, applied]
    rfl
  have judged : layout.Passes maxDepth index base.callers.length []
      (base.resume (offset + 2) held (stack.pushMany [value, bound]) scene)
      (base.resume (if answer then offset + 4 else target) held stack scene) := by
    refine .step (quiet _ (by omega) (by omega))
      ((step_operate linked comparison arity).1 _ ran) ?_
    refine .step (quiet _ (by omega) (by omega)) ((step_resume test).trans ?_) (.refl _)
    cases answer with
    | true => rfl
    | false => exact jump_resume toDone
  have all := compared.trans judged
  rwa [append_nil] at all

end Test

end Passes

end LoopLayout

/-! ## Rounds -/

open LoopLayout

theorem run_next {ty : BasicTy} {value : Value} (board : Board) (isType : value.basicTy? = some ty)
    (annotated : ∀ other ∈ type, other = ty) :
    ((Builtin.operation .next).forTypes (type.map fun ty => [ty])).run [value] board =
      .ok (board, some value.next) := by
  cases type with
  | none => rfl
  | some other =>
    obtain rfl := annotated other rfl
    simp [Builtin.forTypes, Operation.isPolymorphic, Builtin.run, isType]
    rfl

namespace LoopLayout

structure Enters (layout : LoopLayout) (index : String) (value bound : Value) (machine : Machine) :
    Prop where
  offset : machine.frame.offset = layout.start
  index : Table.get? machine.frame.locals index = some value
  limit : Table.get? machine.frame.locals layout.limit = some bound

/-- The loop is over in the same call, and its index is not bound any more. -/
structure Leaves (layout : LoopLayout) (index : String) (first last : Machine) : Prop where
  sameCall : first.SameCall last
  offset : last.frame.offset = layout.behind
  index : Table.get? last.frame.locals index = none

/-- Every run of the body that begins before the loop is over comes to its end. -/
def Completes (layout : LoopLayout) (maxDepth : Nat) (index : String) (first : Machine) : Prop :=
  ∀ seen entered, layout.Passes maxDepth index first.callers.length seen first entered →
    entered.callers.length = first.callers.length → entered.frame.offset = layout.start →
    ∃ ended, entered.Reaches maxDepth layout.stop ended

theorem Completes.after (completes : layout.Completes maxDepth index first)
    (passes : layout.Passes maxDepth index first.callers.length seen first second)
    (sameDepth : second.callers.length = first.callers.length) :
    layout.Completes maxDepth index second := by
  intro more entered further atDepth
  rw [sameDepth] at further atDepth
  exact completes _ entered (passes.trans further) atDepth

def rounds (values : List Value) : List LoopEvent :=
  values.flatMap fun value => [.begins (some value), .ends (some value)]

end LoopLayout

namespace Routine.LoopParts

variable {site : Site} {routine : Routine} {index : String} {type : Option BasicTy} {span : Span}
  {layout : LoopLayout} {maxDepth depth : Nat} {base : Machine} {held : Bindings} {stack : Stack}
  {scene : Scene} {value bound : Value}
variable {ty : BasicTy}
variable {entered : Machine} {low high : Int}

/-- Behind the body, a value that is not the last one is followed by the next one. -/
theorem passes_advance (parts : base.frame.routine.LoopParts index type span layout)
    (linked : site.LinkedTo base.frame.home) (isType : value.basicTy? = some ty)
    (annotated : ∀ other ∈ type, other = ty) (atIndex : Table.get? held index = some value) :
    layout.Passes maxDepth index depth [] (base.resume (layout.stop + 4) held stack scene)
      (base.resume layout.start (Table.insert held index value.next) stack scene) := by
  have quiet (place : Nat) (above : layout.stop < place) (below : place < layout.stop + 8) :
      layout.Quiet place := by
    have order := parts.order
    exact ⟨by omega, by omega, by omega⟩
  have advance := parts.advance
  simp only [loopAdvance, hasCode_cons, hasCode_nil, and_true] at advance
  obtain ⟨push, next, assign⟩ := advance
  obtain ⟨again, -, back, toStart⟩ := parts.label
  refine .step (quiet _ (by omega) (by omega)) (step_push push atIndex) ?_
  refine .step (quiet _ (by omega) (by omega))
    ((step_operate linked next rfl).1 _ (run_next scene.board isType annotated)) ?_
  refine .step (quiet _ (by omega) (by omega)) (step_assign assign rfl) ?_
  exact .step (quiet _ (by omega) (by omega)) ((step_resume back).trans (jump_resume toStart))
    (.refl _)

theorem passes_forget (parts : base.frame.routine.LoopParts index type span layout) :
    layout.Passes maxDepth index depth [] (base.resume (layout.stop + 9) held stack scene)
      (base.resume layout.behind (Table.erase held index) stack scene) := by
  have order := parts.order
  rw [order.2.2.2.2]
  exact .step ⟨by omega, by omega, by omega⟩ (step_resume parts.forget) (.refl _)

theorem passes_body {ended : Machine}
    (parts : entered.frame.routine.LoopParts index type span layout)
    (linked : site.LinkedTo entered.frame.home) (enters : layout.Enters index value bound entered)
    (reaches : entered.Reaches maxDepth layout.stop ended)
    (applied : Operation.notEqual.apply [value, bound] ended.scene.board = .ok (.bool answer)) :
    entered.SameCall ended ∧ Table.get? ended.frame.locals index = some value ∧
      Table.get? ended.frame.locals layout.limit = some bound ∧
      layout.Passes maxDepth index entered.callers.length (rounds [value]) entered
        (ended.resume (if answer then layout.stop + 4 else layout.stop + 9) ended.frame.locals
          ended.stack ended.scene) := by
  have order := parts.order
  have quiet (offset : Nat) (above : layout.start < offset) (below : offset < layout.stop) :
      layout.Quiet offset := ⟨by omega, by omega, by omega⟩
  obtain ⟨walked, sameCall, keeps⟩ :=
    Passes.of_reaches index parts.body enters.offset (by omega) (by omega) quiet reaches
  have atIndex := (keeps index (by simp)).trans enters.index
  have atLimit := (keeps layout.limit (by simp)).trans enters.limit
  obtain ⟨done, toDone, -, test⟩ := parts.tests
  rw [← sameCall.routine] at toDone test
  have judged : layout.Passes maxDepth index ended.callers.length
      (layout.events index ended.callers.length (ended.resume layout.stop ended.frame.locals
        ended.stack ended.scene)) (ended.resume layout.stop ended.frame.locals ended.stack
          ended.scene) _ :=
    .test (sameCall.home ▸ linked) rfl (fun place _ _ => ⟨by omega, by omega, by omega⟩) (by omega)
      test toDone atIndex atLimit applied
  rw [resume_of_offset reaches.offset, sameCall.callers] at judged
  refine ⟨sameCall, atIndex, atLimit, ?_⟩
  rcases walked with ⟨isEmpty, rfl⟩ | ⟨proper, walked⟩
  · have seen : layout.events index ended.callers.length ended = rounds [value] := by
      simp [events, enters.offset, ← isEmpty, enters.index, rounds]
    rwa [seen] at judged
  · have begun : layout.events index entered.callers.length entered = [.begins (some value)] := by
      simp [events, enters.offset, enters.index, Nat.ne_of_lt proper]
    have ended : layout.events index entered.callers.length ended = [.ends (some value)] := by
      simp [events, sameCall.callers, reaches.offset, atIndex, Nat.ne_of_gt proper]
    rw [begun] at walked
    rw [ended] at judged
    exact walked.trans judged

theorem passes_rounds (isLimit : bound.IsAt ty high) (annotated : ∀ other ∈ type, other = ty)
    (remaining : high - low = count) (enters : layout.Enters index value bound entered)
    (isValue : value.IsAt ty low) (parts : entered.frame.routine.LoopParts index type span layout)
    (linked : site.LinkedTo entered.frame.home)
    (completes : layout.Completes maxDepth index entered) :
    ∃ values last, values.length = count + 1 ∧
      (∀ (round : Nat) (value : Value), values[round]? = some value →
        value.IsAt ty (low + round)) ∧
      layout.Passes maxDepth index entered.callers.length (rounds values) entered last ∧
      layout.Leaves index entered last := by
  -- the number of values behind the present one decides whether the test lets the loop go on
  induction count generalizing entered value low with
  | zero =>
    obtain ⟨ended, reaches⟩ := completes [] entered (.refl _) rfl enters.offset
    obtain ⟨sameCall, -, -, passes⟩ :=
      parts.passes_body linked enters reaches (isValue.notEqual isLimit _)
    have isLast : decide (low ≠ high) = false := by simp; omega
    rw [isLast, if_neg Bool.false_ne_true] at passes
    rw [← sameCall.routine] at parts
    refine ⟨[value], _, rfl, fun round other found => ?_, passes.trans parts.passes_forget,
      ⟨sameCall.resume, rfl, (Table.get?_erase _ _ _).trans (if_pos rfl)⟩⟩
    obtain ⟨rfl, rfl⟩ : round = 0 ∧ value = other := by simpa [getElem?_singleton] using found
    simpa using isValue
  | succ count ih =>
    obtain ⟨ended, reaches⟩ := completes [] entered (.refl _) rfl enters.offset
    obtain ⟨sameCall, atIndex, atLimit, passes⟩ :=
      parts.passes_body linked enters reaches (isValue.notEqual isLimit _)
    have goesOn : decide (low ≠ high) = true := by simp; omega
    rw [goesOn, if_pos rfl] at passes
    rw [← sameCall.routine] at parts
    rw [← sameCall.home] at linked
    have round := passes.trans (parts.passes_advance linked isValue.type annotated atIndex)
    rw [append_nil] at round
    have again : entered.SameCall (ended.resume layout.start
        (Table.insert ended.frame.locals index value.next) ended.stack ended.scene) :=
      sameCall.resume
    have entersAgain : layout.Enters index value.next bound (ended.resume layout.start
        (Table.insert ended.frame.locals index value.next) ended.stack ended.scene) :=
      ⟨rfl, (Table.get?_insert _ _ _ _).trans (if_pos rfl),
        (Table.get?_insert _ _ _ _).trans ((if_neg parts.different).trans atLimit)⟩
    obtain ⟨values, last, size, inOrder, further, leaves⟩ := ih (by omega) entersAgain
      (isValue.next isLimit (by omega)) parts linked
      (completes.after round (congrArg List.length again.callers))
    refine ⟨value :: values, last, congrArg (· + 1) size, fun place other found => ?_, ?_,
      ⟨again.trans leaves.sameCall, leaves.offset, leaves.index⟩⟩
    · cases place with
      | zero =>
        cases found
        simpa using isValue
      | succ place =>
        have isLater := inOrder place other found
        rwa [Int.add_assoc, Int.add_comm 1] at isLater
    · rw [again.callers] at further
      exact round.trans further

/-- The bounds are computed, the second one with the first one bound to the index. -/
theorem passes_bounds {atIndex : Machine} {first : Value} {below : Stack}
    (parts : machine.frame.routine.LoopParts index type span layout)
    (atFront : machine.frame.offset = layout.front)
    (reaches : machine.Reaches maxDepth layout.lowerEnd atIndex)
    (popped : atIndex.stack.pop? = some (first, below)) :
    ∃ bound, atIndex.step maxDepth = .next bound ∧
      Table.get? bound.frame.locals index = some first ∧
      ∀ atLimit second rest, bound.Reaches maxDepth layout.upperEnd atLimit →
        atLimit.stack.pop? = some (second, rest) → machine.SameCall atLimit ∧
        Table.get? atLimit.frame.locals index = some first ∧
        layout.Passes maxDepth index machine.callers.length [] machine
          (atLimit.resume (layout.upperEnd + 1)
            (Table.insert atLimit.frame.locals layout.limit second) rest atLimit.scene) := by
  have order := parts.order
  have quiet (place : Nat) (below : place < layout.start) : layout.Quiet place :=
    ⟨by omega, by omega, by omega⟩
  obtain ⟨toIndex, indexCall, -⟩ := Passes.unseen index parts.lower atFront (by omega) (by omega)
    (fun place _ less => quiet place (by omega)) reaches
  obtain ⟨bound, stepped, boundCall, atPlace, atFirst⟩ : ∃ bound,
      atIndex.step maxDepth = .next bound ∧ machine.SameCall bound ∧
      bound.frame.offset = layout.lowerEnd + 1 ∧ Table.get? bound.frame.locals index = some first :=
    ⟨_, step_bind reaches.offset (indexCall.routine ▸ parts.setIndex) popped, indexCall.resume, rfl,
      (Table.get?_insert _ _ _ _).trans (if_pos rfl)⟩
  refine ⟨bound, stepped, atFirst, fun atLimit second rest reachesLimit poppedLimit => ?_⟩
  obtain ⟨toLimit, limitCall, keeps⟩ := Passes.unseen index (boundCall.routine ▸ parts.upper)
    atPlace (by omega) (by omega) (fun place _ less => quiet place (by omega)) reachesLimit
  rw [boundCall.callers] at toLimit
  have sameCall := boundCall.trans limitCall
  refine ⟨sameCall, (keeps index (mem_singleton_self _)).trans atFirst, toIndex.trans ?_⟩
  refine .quiet (fun _ => reaches.offset ▸ quiet _ (by omega)) stepped (toLimit.trans ?_)
  exact .quiet (fun _ => reachesLimit.offset ▸ quiet _ (by omega))
    (step_bind reachesLimit.offset (sameCall.routine ▸ parts.setLimit) poppedLimit) (.refl _)

theorem passes_refusal (parts : base.frame.routine.LoopParts index type span layout)
    (linked : site.LinkedTo base.frame.home) (atIndex : Table.get? held index = some value)
    (atLimit : Table.get? held layout.limit = some bound)
    (differ : value.basicTy? ≠ bound.basicTy?) :
    ∃ last error, layout.Passes maxDepth index base.callers.length []
        (base.resume (layout.upperEnd + 1) held stack scene) last ∧
      last.step maxDepth = .fault error last.scene ∧
      error.cause = .incomparableValues value.typeName bound.typeName := by
  have order := parts.order
  have quiet : layout.Quiet (layout.upperEnd + 1) := ⟨by omega, by omega, by omega⟩
  obtain ⟨done, -, test, -⟩ := parts.tests
  have compared : layout.Passes maxDepth index base.callers.length
      (layout.events index base.callers.length _)
      (base.resume (layout.upperEnd + 1) held stack scene) _ :=
    .comparison ⟨by omega, by omega, by omega⟩ (by omega) test atIndex atLimit
  rw [events_of_quiet fun _ => quiet] at compared
  simp only [loopTest, hasCode_cons] at test
  have refused : ((Builtin.operation .lessEqual).forTypes none).run [value, bound] scene.board =
      .error (.incomparableValues value.typeName bound.typeName) := by
    simp only [Builtin.forTypes, Builtin.run,
      show Operation.lessEqual.apply [value, bound] scene.board = _ from relation_of_ne differ _]
    rfl
  obtain ⟨error, faults, cause⟩ := (step_operate linked test.2.2.1 rfl).2 _ refused
  exact ⟨_, error, compared, faults, cause⟩

theorem passes_loop (parts : base.frame.routine.LoopParts index type span layout)
    (linked : site.LinkedTo base.frame.home) (atIndex : Table.get? held index = some value)
    (atLimit : Table.get? held layout.limit = some bound) (isValue : value.IsAt ty low)
    (isLimit : bound.IsAt ty high) (annotated : ∀ other ∈ type, other = ty)
    (completes : low ≤ high →
      layout.Completes maxDepth index (base.resume (layout.upperEnd + 1) held stack scene)) :
    ∃ values last, values.length = (high - low + 1).toNat ∧
      (∀ (round : Nat) (value : Value), values[round]? = some value →
        value.IsAt ty (low + round)) ∧
      layout.Passes maxDepth index base.callers.length (rounds values)
        (base.resume (layout.upperEnd + 1) held stack scene) last ∧
      layout.Leaves index base last := by
  have order := parts.order
  have quiet (place : Nat) (above : layout.upperEnd < place) (below : place < layout.start) :
      layout.Quiet place := ⟨by omega, by omega, by omega⟩
  obtain ⟨done, toDone, test, -⟩ := parts.tests
  have judged : layout.Passes maxDepth index base.callers.length
      (layout.events index base.callers.length _)
      (base.resume (layout.upperEnd + 1) held stack scene) _ :=
    .test linked rfl (fun place _ _ => quiet place (by omega) (by omega)) (by omega) test toDone
      atIndex atLimit (isValue.lessEqual isLimit _)
  have less : layout.upperEnd + 1 < layout.start := by omega
  rw [events_of_quiet fun _ => quiet _ (Nat.lt_succ_self _) less] at judged
  by_cases le : low ≤ high
  · rw [decide_eq_true le, if_pos rfl] at judged
    obtain ⟨again, label, -, -⟩ := parts.label
    have toStart : layout.Passes maxDepth index base.callers.length [] _
        (base.resume layout.start held stack scene) :=
      judged.trans (.step (quiet (layout.upperEnd + 5) (by omega) (by omega))
        ((step_resume label).trans (by rw [order.2.2.1]; rfl)) (.refl _))
    have enters : layout.Enters index value bound (base.resume layout.start held stack scene) :=
      ⟨rfl, atIndex, atLimit⟩
    obtain ⟨values, last, size, inOrder, further, leaves⟩ :=
      passes_rounds isLimit annotated (show high - low = (high - low).toNat by omega) enters isValue
        parts linked ((completes le).after toStart rfl)
    exact ⟨values, last, by omega, inOrder, toStart.trans further,
      ⟨(SameCall.refl base).resume.trans leaves.sameCall, leaves.offset, leaves.index⟩⟩
  · rw [decide_eq_false le, if_neg Bool.false_ne_true] at judged
    have none : (high - low + 1).toNat = 0 := by omega
    rw [none]
    refine ⟨[], _, rfl, fun _ _ found => ?_, judged.trans parts.passes_forget,
      ⟨(SameCall.refl base).resume, rfl, (Table.get?_erase _ _ _).trans (if_pos rfl)⟩⟩
    cases found

end Routine.LoopParts

/-! ## Programs -/

/-- From the front of its code on, a loop enumerates a range: the index has the value of the first
bound while the second one is computed, bounds of different types are refused, and if no run of the
body fails to end, there is one for each value from the first bound to the second one. -/
def LoopLayout.Enumerates (layout : LoopLayout) (maxDepth : Nat) (index : String)
    (type : Option BasicTy) (machine : Machine) : Prop :=
  ∀ atIndex first below, machine.Reaches maxDepth layout.lowerEnd atIndex →
    atIndex.stack.pop? = some (first, below) →
    ∃ bound, atIndex.step maxDepth = .next bound ∧
      Table.get? bound.frame.locals index = some first ∧
      ∀ atLimit second rest, bound.Reaches maxDepth layout.upperEnd atLimit →
        atLimit.stack.pop? = some (second, rest) →
        Table.get? atLimit.frame.locals index = some first ∧
        (first.basicTy? ≠ second.basicTy? → ∃ last error,
          layout.Passes maxDepth index machine.callers.length [] machine last ∧
          last.step maxDepth = .fault error last.scene ∧
          error.cause = .incomparableValues first.typeName second.typeName) ∧
        ∀ ty low high, first.IsAt ty low → second.IsAt ty high →
          (∀ annotated ∈ type, annotated = ty) →
          (low ≤ high → layout.Completes maxDepth index machine) →
          ∃ values last, values.length = (high - low + 1).toNat ∧
            (∀ (round : Nat) (value : Value), values[round]? = some value →
              value.IsAt ty (low + round)) ∧
            layout.Passes maxDepth index machine.callers.length (rounds values) machine last ∧
            layout.Leaves index machine last

theorem Routine.LoopParts.enumerates {site : Site}
    (parts : machine.frame.routine.LoopParts index type span layout)
    (linked : site.LinkedTo machine.frame.home) (atFront : machine.frame.offset = layout.front)
    (maxDepth : Nat) : layout.Enumerates maxDepth index type machine := by
  intro atIndex first below reaches popped
  obtain ⟨bound, stepped, atFirst, inFront⟩ := parts.passes_bounds atFront reaches popped
  refine ⟨bound, stepped, atFirst, fun atLimit second rest reachesLimit poppedLimit => ?_⟩
  obtain ⟨sameCall, stillFirst, passes⟩ := inFront atLimit second rest reachesLimit poppedLimit
  rw [← sameCall.routine] at parts
  rw [← sameCall.home] at linked
  rw [← sameCall.callers] at passes ⊢
  have atIndex : Table.get? (Table.insert atLimit.frame.locals layout.limit second) index =
      some first :=
    (Table.get?_insert _ _ _ _).trans ((if_neg parts.different.symm).trans stillFirst)
  have atLimit := (Table.get?_insert atLimit.frame.locals layout.limit layout.limit second).trans
    (if_pos rfl)
  refine ⟨stillFirst, fun differ => ?_, fun ty low high isLow isHigh annotated completes => ?_⟩
  · obtain ⟨last, error, further, faults, cause⟩ :=
      parts.passes_refusal linked atIndex atLimit differ
    exact ⟨last, error, passes.trans further, faults, cause⟩
  · obtain ⟨values, last, size, inOrder, further, leaves⟩ :=
      parts.passes_loop linked atIndex atLimit isLow isHigh annotated
        fun le => (completes le).after (sameCall.callers ▸ passes)
          (congrArg List.length sameCall.callers)
    exact ⟨values, last, size, inOrder, passes.trans further,
      ⟨sameCall.trans leaves.sameCall, leaves.offset, leaves.index⟩⟩

/-- In all runs of a program that is accepted, every loop that control comes to enumerates its
range. -/
theorem loop_enumerates_range {settings : Settings} {file source : String} {site : Site}
    (accepted : Site.ofEntry? settings file source = some site) :
    ∃ compiled main, fresh (loadEntry settings file source) = .ok compiled ∧
      compiled.routines.get? "Main" = some main ∧
      ∀ {maxDepth steps : Nat} {scene : Scene} {machine : Machine},
        Machine.Steps maxDepth 0 steps (Machine.start compiled main scene) machine →
        ∀ {here : Site} {definition : Definition} {outer : Stmt} {index : String}
          {lower upper : Expr} {body : List Stmt} {span : Span} {type : Option BasicTy},
          site.Holds here → definition ∈ here.program.definitions →
          definition.CompilesTo machine.frame.routine → outer ∈ definition.body →
          Stmt.Inside (.repeatWith index lower upper body span type) outer →
          (∃ layout, machine.frame.routine.LaysOut
            (.repeatWith index lower upper body span type) layout) ∧
          ∀ layout, machine.frame.routine.LaysOut
              (.repeatWith index lower upper body span type) layout →
            machine.frame.offset = layout.front →
            layout.Enumerates maxDepth index type machine := by
  obtain ⟨-, sound, modulesSound, -⟩ := Site.sound_of_ofEntry? accepted
  obtain ⟨compiled, main, loaded, isMain, -, runs⟩ := Site.runs_of_ofEntry? accepted
  refine ⟨compiled, main, loaded, isMain, ?_⟩
  intro maxDepth steps scene machine reached here definition outer index lower upper body span type
    holds member compiles isOuter inside
  refine ⟨(compiles.hasStmt isOuter inside).laysOut, fun layout laysOut atFront => ?_⟩
  obtain ⟨hereSound, -⟩ := holds.sound sound modulesSound
  obtain ⟨regular, named⟩ := hereSound.regular definition member
  have careful := Site.careful_of_ofEntry? accepted holds definition member
  obtain ⟨placed, _, tame⟩ := compiles.tame careful regular named isOuter inside
  obtain ⟨there, linked⟩ := (runs reached _ List.mem_cons_self).linked sound modulesSound
  exact (laysOut.parts placed tame).enumerates linked atFront maxDepth

/-! ## A walk of two steps -/

def Machine.reach? (maxDepth offset count : Nat) (machine : Machine) : Option Machine :=
  let ended (other : Machine) :=
    other.callers.length = machine.callers.length ∧ other.frame.offset = offset
  (machine.until? maxDepth ended count).filter fun last => decide (ended last)

theorem Machine.Reaches.of_reach? {last : Machine}
    (reached : machine.reach? maxDepth offset count = some last) :
    machine.Reaches maxDepth offset last := by
  obtain ⟨steps, ended⟩ := Option.filter_eq_some_iff.mp reached
  obtain ⟨sameDepth, atOffset⟩ := of_decide_eq_true ended
  exact ⟨.of_until? steps, sameDepth, atOffset⟩

def LoopLayout.completesIn (layout : LoopLayout) (maxDepth depth size : Nat) :
    (count : Nat) → Machine → Bool
  | 0, _ => false
  | count + 1, machine =>
      if machine.callers.length = depth ∧ machine.frame.offset = layout.start ∧
          (machine.reach? maxDepth layout.stop size).isNone then false
      else if machine.callers.length = depth ∧ machine.frame.offset = layout.behind then true
      else
        match machine.step maxDepth with
        | .next next => layout.completesIn maxDepth depth size count next
        | _ => true

theorem LoopLayout.Completes.of_completesIn {size : Nat}
    (checked : layout.completesIn maxDepth first.callers.length size count first = true) :
    layout.Completes maxDepth index first := by
  intro seen entered passes sameDepth atStart
  generalize first.callers.length = depth at *
  induction passes generalizing count with
  | refl machine =>
    cases count with
    | zero => cases checked
    | succ count =>
      rw [completesIn] at checked
      split at checked
      next => cases checked
      next notStuck =>
        cases reached : machine.reach? maxDepth layout.stop size with
        | none => exact absurd ⟨sameDepth, atStart, by rw [reached]; rfl⟩ notStuck
        | some ended => exact ⟨ended, .of_reach? reached⟩
  | head goesOn stepped _ ih =>
    cases count with
    | zero => cases checked
    | succ count =>
      rw [completesIn, stepped] at checked
      split at checked
      next => cases checked
      next =>
        rw [if_neg (show ¬(_ ∧ _) from goesOn)] at checked
        exact ih atStart checked sameDepth

def Routine.layout? (routine : Routine) (front : Nat) (counters : Counters) :
    Stmt → Option LoopLayout
  | .repeatWith index lower upper body span type =>
      let (lowerCode, inner) := compileValue (counters.takeHidden.takeLabels 2) lower
      let (upperCode, inner) := compileValue inner upper
      match compileBlock inner body with
      | .ok (bodyCode, _) =>
          let lowerEnd := front + lowerCode.length
          let upperEnd := lowerEnd + 1 + upperCode.length
          let stop := upperEnd + 6 + bodyCode.length
          if (loopHead counters index lower upper span).1 ++ bodyCode ++
              loopTail counters index span type <+: routine.code.toList.drop front then
            some ⟨counters.hiddenName, front, lowerEnd, upperEnd, upperEnd + 6, stop, stop + 10⟩
          else none
      | .error _ => none
  | _ => none

theorem Routine.LaysOut.of_layout? {front : Nat} {counters : Counters} {loop : Stmt}
    (found : routine.layout? front counters loop = some layout) : routine.LaysOut loop layout := by
  unfold layout? at found
  split at found
  next =>
    dsimp only at found
    split at found
    next compiled =>
      obtain ⟨begins, same⟩ := Option.ite_none_right_eq_some.mp found
      cases same
      exact .intro rfl rfl compiled (hasCode_of_begins begins) rfl rfl rfl
    next => cases found
  next => cases found

def Stmt.index? : Stmt → Option (String × Option BasicTy)
  | .repeatWith index _ _ _ _ type => some (index, type)
  | _ => none

/-- The loop in `east`, which `Main` calls with two, runs its body for one and for two. -/
theorem walk_enumerates_one_and_two :
    ∃ (site : Site) (compiled : CompiledModule) (main : Routine) (machine last : Machine)
        (layout : LoopLayout),
      Site.ofEntry? walkSettings "main.gbs" walkSource = some site ∧
      fresh (loadEntry walkSettings "main.gbs" walkSource) = .ok compiled ∧
      compiled.routines.get? "Main" = some main ∧
      Machine.Steps 2 0 5 (.start compiled main (.ofBoard (.blank 3 1))) machine ∧
      machine.frame.offset = layout.front ∧ layout.Completes 2 "i" machine ∧
      layout.Passes 2 "i" machine.callers.length (rounds [.int 1, .int 2]) machine last ∧
      layout.Leaves "i" machine last := by
  obtain ⟨site, accepted⟩ := walk_accepted
  obtain ⟨compiled, main, loaded, isMain, enumerates⟩ := loop_enumerates_range accepted
  have looped : (do
      let site ← Site.ofEntry? walkSettings "main.gbs" walkSource
      let known ← site.modules.head?
      let definition ← known.program.definitions.head?
      let loop ← definition.body.head?
      let compiled ← (fresh (loadEntry walkSettings "main.gbs" walkSource)).toOption
      let main ← compiled.routines.get? "Main"
      let machine ← (Machine.start compiled main (.ofBoard (.blank 3 1))).after? 2 0 5
      let layout ← machine.frame.routine.layout? 1 ⟨0, 0⟩ loop
      let atIndex ← machine.reach? 2 layout.lowerEnd 1
      let first ← atIndex.stack.pop?
      let bound ← atIndex.after? 2 0 1
      let atLimit ← bound.reach? 2 layout.upperEnd 1
      let second ← atLimit.stack.pop?
      if definition.routine? ⟨0, 0⟩ = some machine.frame.routine ∧
        machine.frame.offset = layout.front ∧ first.1 = .int 1 ∧ second.1 = .int 2 ∧
        loop.index? = some ("i", some .int) ∧
        layout.completesIn 2 machine.callers.length 4 40 machine = true then some () else none) =
          some () := by decide +kernel
  rw [accepted, loaded] at looped
  simp only [Except.toOption, Option.bind_eq_bind, Option.bind_some, isMain,
    Option.bind_eq_some_iff] at looped
  obtain ⟨known, isKnown, definition, isDefinition, loop, isLoop, machine, reached, layout,
    isLayout, atIndex, toIndex, first, isFirst, bound, stepped, atLimit, toLimit, second, isSecond,
    facts⟩ := looped
  obtain ⟨compiles, atFront, firstIsOne, secondIsTwo, isIndex, checked⟩ :=
    (Option.ite_none_right_eq_some.mp facts).1
  have laysOut := Routine.LaysOut.of_layout? isLayout
  obtain ⟨index, lower, upper, body, span, type, rfl⟩ : ∃ index lower upper body span type,
      loop = .repeatWith index lower upper body span type := by
    cases laysOut
    exact ⟨_, _, _, _, _, _, rfl⟩
  cases isIndex
  obtain ⟨-, every⟩ := enumerates (.of_after? reached) (.of_head? isKnown)
    (List.mem_of_mem_head? isDefinition) (.of_routine? compiles) (List.mem_of_mem_head? isLoop)
    .here
  obtain ⟨next, nextStep, -, further⟩ :=
    every layout laysOut atFront atIndex _ _ (.of_reach? toIndex) isFirst
  have same : next = bound := by simpa [after?, nextStep] using stepped
  have completes : layout.Completes 2 "i" machine := .of_completesIn checked
  obtain ⟨-, -, enumerated⟩ := further atLimit _ _ (same ▸ .of_reach? toLimit) isSecond
  rw [firstIsOne, secondIsTwo] at enumerated
  obtain ⟨values, last, size, inOrder, passes, leaves⟩ := enumerated .int 1 2 ⟨rfl, rfl⟩ ⟨rfl, rfl⟩
    (fun annotated member => (Option.some.inj member).symm) fun _ => completes
  obtain ⟨one, two, rfl⟩ := List.length_eq_two.mp size
  obtain rfl := (inOrder 0 one rfl).eq_int
  obtain rfl := (inOrder 1 two rfl).eq_int
  exact ⟨site, compiled, main, machine, last, layout, accepted, loaded, isMain, .of_after? reached,
    atFront, completes, passes, leaves⟩

end StoneBoard
