import StoneBoard.Proofs.Pairing
import StoneBoard.Proofs.Safety
import StoneBoard.Proofs.Untyped

/-!
# Runs in lockstep

Code that knows more about types runs in lockstep with code that knows less: step by step the
two machines are in the same state, and they come to the same end.  There is one exception.
A variant of a polymorphic builtin first looks at the type of its argument, and ends the run
if the argument is of another type.
-/

namespace StoneBoard

open Library

variable {typed bare : Routine}

/-! ## Machines in the same state -/

def Frame.view (frame : Frame) : String × Nat × Bindings × Nat :=
  (frame.home.qualified frame.routine.name, frame.offset, frame.locals, frame.base)

namespace Machine

structure SameState (first second : Machine) : Prop where
  frames : first.frames.map Frame.view = second.frames.map Frame.view
  depth : first.depth = second.depth
  stack : first.stack = second.stack
  scene : first.scene = second.scene

def Outcome.Agrees : Outcome → Outcome → Prop
  | .next first, .next second => first.SameState second
  | .done result scene, .done otherResult otherScene => result = otherResult ∧ scene = otherScene
  | .fault error scene, .fault otherError otherScene => error = otherError ∧ scene = otherScene
  | _, _ => False

def walk (maxDepth : Nat) : Nat → Machine → Outcome
  | 0, machine => .next machine
  | count + 1, machine =>
      match machine.step maxDepth with
      | .next next => walk maxDepth count next
      | ended => ended

def Outcome.ending? : Outcome → Option (Except Error Bindings × Scene)
  | .next _ => none
  | .done result scene => some (.ok result, scene)
  | .fault error scene => some (.error error, scene)

theorem run_eq_ending?_walk (limit budget : Nat) (machine : Machine) :
    machine.run limit budget = (machine.walk limit budget).ending? := by
  induction budget generalizing machine with
  | zero => rfl
  | succ budget ih =>
    rw [run, walk]
    cases machine.step limit with
    | next next => exact ih next
    | done result scene => rfl
    | fault error scene => rfl

/-- The machine is about to call the variant of a polymorphic builtin for a type, the argument
is of another type, and this is the error that ends the run. -/
def Refuses (maxDepth : Nat) (machine : Machine) (error : Error) : Prop :=
  ∃ op ty span value, op.isPolymorphic = true ∧
    machine.frame.routine.code[machine.frame.offset]? =
      some (.call (variantName op.name [ty]) 1, span) ∧
    machine.stack.items.head? = some value ∧ value.basicTy? ≠ some ty ∧
    error.cause = Builtin.variantFault op ty value ∧
    machine.step maxDepth = .fault error machine.scene

end Machine

/-! ## Frames with more and with less knowledge -/

theorem Specialized.getElem? {lines bareLines : List Line}
    (specialized : Specialized lines bareLines) (offset : Nat) :
    Option.Rel (fun typed bare : Line => typed.1.Specializes bare.1 ∧ typed.2 = bare.2)
      lines[offset]? bareLines[offset]? := by
  induction specialized generalizing offset with
  | nil => exact .none
  | cons here _ ih =>
    cases offset with
    | zero => exact .some here
    | succ offset => exact ih offset

theorem Routine.Specializes.line (spec : typed.Specializes bare) (offset : Nat) :
    Option.Rel (fun line bareLine : Line =>
        line.1.Specializes bareLine.1 ∧ line.2 = bareLine.2)
      typed.code[offset]? bare.code[offset]? := by
  rw [← Array.getElem?_toList, ← Array.getElem?_toList]
  exact spec.code.getElem? offset

theorem Routine.Specializes.spanAt? (spec : typed.Specializes bare) (offset : Nat) :
    typed.spanAt? offset = bare.spanAt? offset := by
  rw [Routine.spanAt?, Routine.spanAt?]
  have line := spec.line offset
  generalize typed.code[offset]? = here, bare.code[offset]? = there at line
  cases line with
  | none => rfl
  | some same => rw [Option.map_some, Option.map_some, same.2]

/-- A frame whose code knows more about types than that of another one, at the same place. -/
structure Frame.Specializes (typed bare : Frame) : Prop where
  home : typed.home.Specializes bare.home
  routine : typed.routine.Specializes bare.routine
  offset : typed.offset = bare.offset
  locals : typed.locals = bare.locals
  base : typed.base = bare.base

namespace Frame.Specializes

variable {typed bare : Frame}

theorem span? (spec : typed.Specializes bare) : typed.span? = bare.span? := by
  rw [Frame.span?, Frame.span?, spec.offset]
  exact spec.routine.spanAt? _

theorem qualified (spec : typed.Specializes bare) :
    typed.home.qualified typed.routine.name = bare.home.qualified bare.routine.name := by
  rw [CompiledModule.qualified, CompiledModule.qualified, spec.home.qualifier, spec.routine.name]

theorem view (spec : typed.Specializes bare) : typed.view = bare.view := by
  rw [Frame.view, Frame.view, spec.qualified, spec.offset, spec.locals, spec.base]

theorem traceLine (spec : typed.Specializes bare) : typed.traceLine = bare.traceLine := by
  simp only [Frame.traceLine, spec.span?, spec.qualified, spec.routine.kind]

theorem traceVariables (spec : typed.Specializes bare) :
    typed.traceVariables = bare.traceVariables := by
  rw [Frame.traceVariables, Frame.traceVariables, Frame.visibleVariables,
    Frame.visibleVariables, spec.locals]

end Frame.Specializes

abbrev specialization : Pairing where
  Frames := Frame.Specializes
  Scenes scene other := scene = other
  span? := Frame.Specializes.span?
  traceLine := Frame.Specializes.traceLine
  traceVariables := Frame.Specializes.traceVariables
  qualifier specializes := specializes.home.qualifier
  file specializes := specializes.home.file
  name specializes := specializes.routine.name
  base := Frame.Specializes.base
  builtin := Builtin.agrees_of_eq

/-! ## Variants -/

theorem Stack.popMany?_one (stack : Stack) :
    stack.popMany? 1 = stack.pop?.map fun top => ([top.1], top.2) := by
  obtain ⟨_ | ⟨value, below⟩, height, counted⟩ := stack <;> cases counted
  · rfl
  · simp [popMany?, pop?]

theorem Stack.head?_of_pop? {stack below : Stack} {value : Value}
    (popped : stack.pop? = some (value, below)) : stack.items.head? = some value := by
  obtain ⟨_ | ⟨value, below⟩, height, counted⟩ := stack <;> cases popped
  rfl

/-! ## Steps -/

namespace Machine

variable {limit count steps : Nat} {machine last : Machine}

abbrev Specializes (typed bare : Machine) : Prop := specialization.Machines typed bare

abbrev Outcome.Specializes (typed bare : Outcome) : Prop := specialization.Outcomes typed bare

namespace Specializes

variable {typed bare : Machine} (spec : typed.Specializes bare)
include spec

theorem sameState : typed.SameState bare where
  frames := Pairing.map_eq spec.frames Frame.Specializes.view
  depth := spec.depth
  stack := spec.stack
  scene := spec.scene

theorem execute (limit : Nat) (instr : Instruction) :
    (typed.execute limit instr).Specializes (bare.execute limit instr) := by
  have frames : typed.frame.Specializes bare.frame := spec.frame
  have scenes : typed.scene = bare.scene := spec.scene
  rw [← instr.renamed_id]
  refine Pairing.Machines.execute spec limit (Pairing.alike_self frames.locals
    frames.routine.labels (fun _ => { frames with locals := rfl })
    (fun _ => { frames with offset := rfl }) (fun name count _ => ?_) ?_ fun _ => ?_)
  · have links := frames.home.exported? name
    generalize typed.frame.home.exported? name = link, bare.frame.home.exported? name = bareLink
      at links
    cases links with
    | none => exact .none
    | some both =>
      exact .some ⟨both.routine.parameters, fun _ _ => ⟨both.home, both.routine, rfl, rfl, rfl⟩⟩
  · exact congrArg (fun scene => Scene.mk scene.board.save scene.log.openMark) scenes
  · exact congrArg (fun scene => Scene.mk scene.board.restore scene.log.closeMark) scenes

theorem advance : typed.advance.Specializes bare.advance := by
  have frames : typed.frame.Specializes bare.frame := spec.frame
  exact { spec with frame := { frames with offset := congrArg (· + 1) frames.offset } }

/-- The variant of a builtin does what the builtin does, or refuses its argument. -/
theorem callVariant (limit : Nat) {op : Operation} (poly : op.isPolymorphic = true)
    (ty : BasicTy) : (typed.call limit (variantName op.name [ty]) 1).Specializes
        (bare.call limit op.name 1) ∨
      ∃ value error, typed.stack.items.head? = some value ∧ value.basicTy? ≠ some ty ∧
        error.cause = Builtin.variantFault op ty value ∧
        typed.call limit (variantName op.name [ty]) 1 = .fault error typed.scene := by
  have isVariant : Builtin.ofName? (variantName op.name [ty]) = some (.variant op ty) :=
    Builtin.ofName?_name (Builtin.variant_mem_all poly ty)
  have isOperation : Builtin.ofName? op.name = some (.operation op) :=
    Builtin.ofName?_name (Builtin.operation_mem_all op)
  have noRoutine : typed.frame.home.exported? (variantName op.name [ty]) = none := by
    apply spec.frame.home.reserved
    rw [Builtin.isDefined, isVariant, Option.isSome_some]
  have bareNoRoutine : bare.frame.home.exported? op.name = none := by
    have links := spec.frame.home.exported? op.name
    rw [spec.frame.home.reserved (by rw [Builtin.isDefined, isOperation]; rfl)] at links
    cases hasLink : bare.frame.home.exported? op.name with
    | none => rfl
    | some link =>
      rw [hasLink] at links
      cases links
  have oneArgument : (Builtin.operation op).arity = 1 := by
    cases op <;> first | rfl | cases poly
  have oneOfVariant : (Builtin.variant op ty).arity = 1 := rfl
  simp only [Machine.call, noRoutine, isVariant, bareNoRoutine, isOperation, Machine.callBuiltin,
    oneArgument, oneOfVariant, ne_eq, not_true_eq_false, if_false]
  rw [Machine.withValues, Machine.withValues, ← spec.stack, Stack.popMany?_one]
  cases popped : typed.stack.pop? with
  | none =>
    left
    exact spec.fail _
  | some top =>
    obtain ⟨value, below⟩ := top
    have nexts := spec.setStack below
    have sameBoard : typed.scene.board = bare.scene.board := congrArg Scene.board spec.scene
    simp only [Option.map_some, Builtin.run_variant, sameBoard]
    by_cases fits : value.basicTy? = some ty
    · left
      simp only [if_pos fits, Builtin.run_operation]
      cases op.apply [value] bare.scene.board with
      | error cause => exact nexts.fail cause
      | ok result => exact .next (nexts.push result)
    · right
      simp only [if_neg fits]
      exact ⟨value, _, Stack.head?_of_pop? popped, fits, rfl, rfl⟩

theorem executeSpecialized (limit : Nat) {instr bareInstruction : Instruction}
    (instrs : instr.Specializes bareInstruction) :
    (typed.execute limit instr).Specializes (bare.execute limit bareInstruction) ∨
      ∃ op ty value error, op.isPolymorphic = true ∧
        instr = .call (variantName op.name [ty]) 1 ∧
        typed.stack.items.head? = some value ∧ value.basicTy? ≠ some ty ∧
        error.cause = Builtin.variantFault op ty value ∧
        typed.execute limit instr = .fault error typed.scene := by
  cases instrs with
  | refl => exact .inl (spec.execute limit instr)
  | @variant op poly ty =>
    rcases spec.callVariant limit poly ty with same | ⟨value, error, refused⟩
    · exact .inl same
    · exact .inr ⟨op, ty, value, error, poly, rfl, refused⟩
  | output count same => exact .inl (Pairing.Machines.returnNamed spec limit count same)

/-- One step keeps machines in the same state, unless it calls a variant that refuses its
argument. -/
theorem step (limit : Nat) : (typed.step limit).Specializes (bare.step limit) ∨
      ∃ error, typed.Refuses limit error := by
  have frames : typed.frame.Specializes bare.frame := spec.frame
  by_cases refuses : ∃ error, typed.Refuses limit error
  · exact .inr refuses
  left
  apply Pairing.Machines.step spec.advance
  have line := frames.routine.line typed.frame.offset
  rw [← frames.offset]
  generalize here : typed.frame.routine.code[typed.frame.offset]? = found,
    bare.frame.routine.code[typed.frame.offset]? = bareFound at line ⊢
  cases line with
  | none => exact .none
  | @some typedLine bareLine same =>
    refine .some ((spec.advance.executeSpecialized limit same.1).resolve_right ?_)
    rintro ⟨op, ty, value, error, poly, isCall, top, other, cause, ends⟩
    refine refuses ⟨error, op, ty, typedLine.2, value, poly, ?_, top, other, cause, ?_⟩
    · rw [here, ← isCall]
    · rw [show typed.step limit = typed.advance.execute limit typedLine.1 by
        simp only [Machine.step, here], ends]
      rfl

/-- Machines stay in the same state for any number of steps, unless a variant refuses its
argument before. -/
theorem walk (limit count : Nat) : (typed.walk limit count).Specializes (bare.walk limit count) ∨
      ∃ steps last error, steps < count ∧ typed.walk limit steps = .next last ∧
        last.Refuses limit error := by
  induction count generalizing typed bare with
  | zero => exact .inl (.next spec)
  | succ count ih =>
    rcases spec.step limit with agree | ⟨error, refuses⟩
    · rw [Machine.walk, Machine.walk]
      generalize stepped : typed.step limit = outcome, bare.step limit = bareOutcome at agree
      cases agree with
      | next machines =>
        rcases ih machines with same | ⟨steps, last, error, early, reached, refuses⟩
        · exact .inl same
        · refine .inr ⟨steps + 1, last, error, Nat.succ_lt_succ early, ?_, refuses⟩
          rw [Machine.walk, stepped]
          exact reached
      | done result scene => exact .inl (.done result scene)
      | fault error scene => exact .inl (.fault error scene)
    · exact .inr ⟨0, typed, error, Nat.zero_lt_succ count, rfl, refuses⟩

end Specializes

theorem Outcome.Specializes.agrees {typed bare : Outcome} (spec : typed.Specializes bare) :
    typed.Agrees bare := by
  cases spec with
  | next machines => exact Specializes.sameState machines
  | done result scenes => exact ⟨rfl, scenes⟩
  | fault error scenes => exact ⟨rfl, scenes⟩

theorem Outcome.Agrees.ending? {first second : Outcome} (agrees : first.Agrees second) :
    first.ending? = second.ending? := by
  match first, second, agrees with
  | .next _, .next _, _ => rfl
  | .done _ _, .done _ _, ⟨rfl, rfl⟩ => rfl
  | .fault _ _, .fault _ _, ⟨rfl, rfl⟩ => rfl

theorem step_of_walk_succ (reached : machine.walk limit (count + 1) = .next last) :
    ∃ next, machine.step limit = .next next ∧ next.walk limit count = .next last := by
  rw [walk] at reached
  cases stepped : machine.step limit with
  | next next =>
    rw [stepped] at reached
    exact ⟨next, rfl, reached⟩
  | done | fault =>
    rw [stepped] at reached
    cases reached

theorem walk_add (reached : machine.walk limit steps = .next last) (count : Nat) :
    machine.walk limit (steps + count) = last.walk limit count := by
  induction steps generalizing machine with
  | zero =>
    cases reached
    rw [Nat.zero_add]
  | succ steps ih =>
    obtain ⟨next, stepped, rest⟩ := step_of_walk_succ reached
    rw [Nat.add_right_comm, walk, stepped]
    exact ih rest

theorem walk_of_le (reached : machine.walk limit steps = .next last) (early : count ≤ steps) :
    ∃ between, machine.walk limit count = .next between := by
  induction steps generalizing machine count with
  | zero =>
    cases Nat.le_zero.mp early
    exact ⟨last, reached⟩
  | succ steps ih =>
    cases count with
    | zero => exact ⟨machine, rfl⟩
    | succ count =>
      obtain ⟨next, stepped, rest⟩ := step_of_walk_succ reached
      rw [walk, stepped]
      exact ih rest (Nat.le_of_succ_le_succ early)

theorem Refuses.walk_of_lt {error : Error} (refuses : last.Refuses limit error)
    (reached : machine.walk limit steps = .next last) (late : steps < count) :
    machine.walk limit count = .fault error last.scene := by
  obtain ⟨more, rfl⟩ := Nat.exists_eq_add_of_lt late
  obtain ⟨op, ty, span, value, -, -, -, -, -, ends⟩ := refuses
  rw [Nat.add_assoc, walk_add reached, walk, ends]

/-- Either machines stay in the same state forever, or until a variant refuses its argument. -/
theorem Specializes.lockstep {typed bare : Machine} (spec : typed.Specializes bare)
    (limit : Nat) : (∀ count, (typed.walk limit count).Agrees (bare.walk limit count)) ∨
      ∃ steps last error, typed.walk limit steps = .next last ∧ last.Refuses limit error ∧
        ∀ count ≤ steps, (typed.walk limit count).Agrees (bare.walk limit count) := by
  by_cases refused : ∃ steps last error, typed.walk limit steps = .next last ∧
      last.Refuses limit error
  · obtain ⟨steps, last, error, reached, refuses⟩ := refused
    refine .inr ⟨steps, last, error, reached, refuses, ?_⟩
    intro count early
    rcases spec.walk limit count with same | ⟨before, refuser, fault, first, stops, ends⟩
    · exact same.agrees
    · rw [ends.walk_of_lt stops (Nat.lt_of_lt_of_le first early)] at reached
      cases reached
  · left
    intro count
    rcases spec.walk limit count with same | ⟨before, refuser, fault, first, stops, ends⟩
    · exact same.agrees
    · exact absurd ⟨before, refuser, fault, stops, ends⟩ refused

end Machine

/-! ## Programs -/

/-- A program that passes the analysis with types also passes it without them, as its bare
form.  Both are compiled, and on every board and with every limit on calls they run in
lockstep to the same end; or they do so until a variant of a polymorphic builtin refuses its
argument, with which the run with types ends. -/
theorem types_only_add_tag_checks {catalogue : Catalogue} {file source : String}
    {program : Program}
    (analyzed : fresh (analyzeEntry ⟨catalogue, true⟩ file source) = .ok program) :
    fresh (analyzeEntry ⟨catalogue, false⟩ file source) = .ok program.bare ∧
      ∃ typed main bare bareMain,
        fresh (loadEntry ⟨catalogue, true⟩ file source) = .ok typed ∧
        typed.routines.get? "Main" = some main ∧
        fresh (loadEntry ⟨catalogue, false⟩ file source) = .ok bare ∧
        bare.routines.get? "Main" = some bareMain ∧
        ∀ maxDepth scene,
          ((∀ count, ((Machine.start typed main scene).walk maxDepth count).Agrees
                ((Machine.start bare bareMain scene).walk maxDepth count)) ∧
              ∀ budget, typed.run maxDepth budget scene = bare.run maxDepth budget scene) ∨
            ∃ steps last error,
              (Machine.start typed main scene).walk maxDepth steps = .next last ∧
              last.Refuses maxDepth error ∧
              (∀ count ≤ steps, ((Machine.start typed main scene).walk maxDepth count).Agrees
                ((Machine.start bare bareMain scene).walk maxDepth count)) ∧
              ∀ budget, typed.run maxDepth budget scene =
                if budget ≤ steps then none else some (.error error, last.scene) := by
  obtain ⟨bareProgram, bareAnalyzed, programs⟩ :=
    Mirrors.fresh (mirrors_analyzeEntry catalogue file source) analyzed
  obtain ⟨modules, accepted⟩ := Site.ofEntry?_iff_analyzeEntry.mpr analyzed
  obtain ⟨typed, -, main, loaded, -, -, -, isMain, -⟩ := Site.compiled_of_ofEntry? accepted
  obtain ⟨bare, bareLoaded, specializes⟩ :=
    Mirrors.fresh (mirrors_loadEntry catalogue file source) loaded
  obtain ⟨bareMain, bareIsMain, mains⟩ :
      ∃ bareMain, bare.routines.get? "Main" = some bareMain ∧ main.Specializes bareMain := by
    have mains := specializes.routines "Main"
    rw [isMain] at mains
    cases bareIsMain : bare.routines.get? "Main" with
    | none =>
      rw [bareIsMain] at mains
      cases mains
    | some bareMain =>
      rw [bareIsMain] at mains
      cases mains with
      | some same => exact ⟨bareMain, rfl, same⟩
  have runs (maxDepth budget : Nat) (scene : Scene) : typed.run maxDepth budget scene =
      ((Machine.start typed main scene).walk maxDepth budget).ending? := by
    rw [CompiledModule.run, isMain]
    exact Machine.run_eq_ending?_walk maxDepth budget _
  have bareRuns (maxDepth budget : Nat) (scene : Scene) : bare.run maxDepth budget scene =
      ((Machine.start bare bareMain scene).walk maxDepth budget).ending? := by
    rw [CompiledModule.run, bareIsMain]
    exact Machine.run_eq_ending?_walk maxDepth budget _
  refine ⟨by rw [bareAnalyzed, programs.same], typed, main, bare, bareMain, loaded, isMain,
    bareLoaded, bareIsMain, fun maxDepth scene => ?_⟩
  have starts : (Machine.start typed main scene).Specializes (.start bare bareMain scene) :=
    ⟨⟨specializes, mains, rfl, rfl, rfl⟩, .nil, rfl, rfl, rfl⟩
  rcases starts.lockstep maxDepth with agree | ⟨steps, last, error, reached, refuses, agree⟩
  · refine .inl ⟨agree, fun budget => ?_⟩
    rw [runs, bareRuns, (agree budget).ending?]
  · refine .inr ⟨steps, last, error, reached, refuses, agree, fun budget => ?_⟩
    rw [runs]
    split
    next early =>
      obtain ⟨between, goesOn⟩ := Machine.walk_of_le reached early
      rw [goesOn, Machine.Outcome.ending?]
    next late =>
      rw [refuses.walk_of_lt reached (Nat.lt_of_not_le late), Machine.Outcome.ending?]

/-- The walk to the east does the same without types. -/
theorem walk_needs_no_types :
    ∃ typed bare outcome,
      fresh (loadEntry walkSettings "main.gbs" walkSource) = .ok typed ∧
      fresh (loadEntry ⟨walkSettings.catalogue, false⟩ "main.gbs" walkSource) = .ok bare ∧
      typed.run 2 50 (.ofBoard (.blank 3 1)) = some outcome ∧ outcome.1.isOk = true ∧
      bare.run 2 50 (.ofBoard (.blank 3 1)) = some outcome := by
  obtain ⟨⟨program, modules⟩, accepted⟩ := walk_accepted
  have analyzed := Site.ofEntry?_iff_analyzeEntry.mp ⟨modules, accepted⟩
  obtain ⟨-, typed, main, bare, bareMain, loaded, -, bareLoaded, -, lockstep⟩ :=
    types_only_add_tag_checks analyzed
  have ending : ((fresh (loadEntry walkSettings "main.gbs" walkSource)).toOption.bind
      fun compiled => compiled.run 2 50 (.ofBoard (.blank 3 1))).map (·.1.isOk) = some true := by
    decide +kernel
  obtain ⟨outcome, ran, succeeded⟩ := Option.map_eq_some_iff.mp ending
  rw [show fresh (loadEntry walkSettings "main.gbs" walkSource) = .ok typed from loaded] at ran
  refine ⟨typed, bare, outcome, loaded, bareLoaded, ran, succeeded, ?_⟩
  rcases lockstep 2 (.ofBoard (.blank 3 1)) with ⟨-, same⟩ | ⟨steps, last, error, -, -, -, ends⟩
  · exact (same 50).symm.trans ran
  · rw [Except.toOption, Option.bind_some, ends 50] at ran
    split at ran <;> cases ran
    cases succeeded

end StoneBoard
