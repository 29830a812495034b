import Mathlib.Data.List.Forall2
import StoneBoard.Machine

/-!
# Machines side by side

Two machines may run different code, in different modules and on different boards.  If their
calls under way go together and the next instruction does the same to both, they go together
after it as well; and if one of them comes to an end, so does the other, with the same result or
the same error.
-/

namespace StoneBoard

open List

namespace Instruction

def renamed (labels : Nat → Nat) (names : String → String) : Instruction → Instruction
  | pushVariable name => .pushVariable (names name)
  | assign name => .assign (names name)
  | deleteVariable name => .deleteVariable (names name)
  | label placed => .label (labels placed)
  | jump target => .jump (labels target)
  | jumpIfFalse target => .jumpIfFalse (labels target)
  | jumpIfNotIn values target => .jumpIfNotIn values (labels target)
  | other => other

@[simp]
theorem renamed_id (instr : Instruction) : instr.renamed id id = instr := by
  cases instr <;> rfl

end Instruction

/-- A builtin fails for the same cause on both boards, or gives the same value, or acts on both. -/
def Builtin.Agrees (scenes : Scene → Scene → Prop) (first second : Scene) (builtin : Builtin)
    (arguments : List Value) : Prop :=
  (∃ cause, builtin.run arguments first.board = .error cause ∧
    builtin.run arguments second.board = .error cause) ∨
  (∃ board other value, builtin.run arguments first.board = .ok (board, some value) ∧
    builtin.run arguments second.board = .ok (other, some value)) ∨
  ∃ board other, builtin.run arguments first.board = .ok (board, none) ∧
    builtin.run arguments second.board = .ok (other, none) ∧
    ∀ routine action, scenes ⟨board, first.log.record routine action board.head⟩
      ⟨other, second.log.record routine action other.head⟩

theorem Builtin.agrees_of_eq {first second : Scene} (same : first = second) (builtin : Builtin)
    (args : List Value) : builtin.Agrees (· = ·) first second args := by
  subst same
  rcases ran : builtin.run args first.board with cause | ⟨board, _ | value⟩
  · exact .inl ⟨cause, ran, ran⟩
  · exact .inr (.inr ⟨board, board, ran, ran, fun _ _ => rfl⟩)
  · exact .inr (.inl ⟨board, board, value, ran, ran⟩)

/-- Which calls under way, and which boards and logs, go together.  Errors tell the same of calls
that do, and builtins do the same to boards that do. -/
structure Pairing where
  Frames : Frame → Frame → Prop
  Scenes : Scene → Scene → Prop
  span? {first second : Frame} : Frames first second → first.span? = second.span?
  traceLine {first second : Frame} : Frames first second → first.traceLine = second.traceLine
  traceVariables {first second : Frame} :
    Frames first second → first.traceVariables = second.traceVariables
  qualifier {first second : Frame} :
    Frames first second → first.home.qualifier = second.home.qualifier
  file {first second : Frame} : Frames first second → first.home.file = second.home.file
  name {first second : Frame} : Frames first second → first.routine.name = second.routine.name
  base {first second : Frame} : Frames first second → first.base = second.base
  builtin {first second : Scene} (scenes : Scenes first second) (builtin : Builtin)
    (arguments : List Value) : builtin.Agrees Scenes first second arguments

namespace Pairing

variable (pairing : Pairing)

structure Machines (first second : Machine) : Prop where
  frame : pairing.Frames first.frame second.frame
  callers : List.Forall₂ pairing.Frames first.callers second.callers
  depth : first.depth = second.depth
  stack : first.stack = second.stack
  scene : pairing.Scenes first.scene second.scene

inductive Outcomes : Machine.Outcome → Machine.Outcome → Prop
  | next {first second : Machine} (machines : pairing.Machines first second) :
      Outcomes (.next first) (.next second)
  | done (result : Bindings) {first second : Scene} (scenes : pairing.Scenes first second) :
      Outcomes (.done result first) (.done result second)
  | fault (error : Error) {first second : Scene} (scenes : pairing.Scenes first second) :
      Outcomes (.fault error first) (.fault error second)

/-- Labels that stand for places which go together, or for none. -/
def Lands (first second : Frame) (label other : Nat) : Prop :=
  (∃ offset, first.routine.target? label = some offset ∧
    second.routine.target? other = some offset ∧
    pairing.Frames { first with offset } { second with offset }) ∨
  label = other ∧ first.routine.target? label = none ∧ second.routine.target? other = none

/-- Routines that take the same parameters, and whose calls go together. -/
def Links (link other : CompiledModule × Routine) : Prop :=
  link.2.parameters = other.2.parameters ∧ ∀ arguments base,
    let locals := Table.insertAll [] (link.2.parameters.zip arguments)
    pairing.Frames ⟨link.1, link.2, 0, locals, base⟩ ⟨other.1, other.2, 0, locals, base⟩

/-- An instruction that does the same to both machines, with other labels and variables for each
of them. -/
structure Alike (first second : Machine) (instruction : Instruction) (labels others : Nat → Nat)
    (names otherNames : String → String) : Prop where
  reads : ∀ name, instruction = .pushVariable name →
    Table.get? first.frame.locals (names name) = Table.get? second.frame.locals (otherNames name) ∧
      (names name = otherNames name ∨ Table.get? first.frame.locals (names name) ≠ none)
  sets : ∀ name value, instruction = .assign name →
    pairing.Frames (first.frame.setVariable (names name) value)
      (second.frame.setVariable (otherNames name) value)
  erases : ∀ name, instruction = .deleteVariable name →
    pairing.Frames (first.frame.eraseVariable (names name))
      (second.frame.eraseVariable (otherNames name))
  lands : ∀ label, instruction.target? = some label →
    pairing.Lands first.frame second.frame (labels label) (others label)
  links : ∀ name count, instruction = .call name count →
    Option.Rel pairing.Links (first.frame.home.exported? name) (second.frame.home.exported? name)
  enters : pairing.Scenes ⟨first.scene.board.save, first.scene.log.openMark⟩
    ⟨second.scene.board.save, second.scene.log.openMark⟩
  leaves : instruction = .leave →
    pairing.Scenes ⟨first.scene.board.restore, first.scene.log.closeMark⟩
      ⟨second.scene.board.restore, second.scene.log.closeMark⟩

variable {pairing}

theorem map_eq {α : Type} {frames others : List Frame} {read : Frame → α}
    (related : List.Forall₂ pairing.Frames frames others)
    (reads : ∀ {first second : Frame}, pairing.Frames first second → read first = read second) :
    frames.map read = others.map read := by
  induction related with
  | nil => rfl
  | cons here _ ih => rw [map_cons, map_cons, reads here, ih]

theorem blamed {frames others : List Frame} {frame other : Frame}
    (related : List.Forall₂ pairing.Frames frames others) (here : pairing.Frames frame other) :
    pairing.Frames ((frames.find? fun frame => frame.home.qualifier.isEmpty).getD frame)
      ((others.find? fun frame => frame.home.qualifier.isEmpty).getD other) := by
  induction related with
  | nil => exact here
  | cons head _ ih =>
    rw [find?_cons, find?_cons, pairing.qualifier head]
    split
    · exact head
    · exact ih

namespace Machines

variable {first second : Machine} (machines : pairing.Machines first second)
include machines

theorem frames : List.Forall₂ pairing.Frames first.frames second.frames :=
  .cons machines.frame machines.callers

theorem error (cause : Cause) : first.error cause = second.error cause := by
  have blamed := blamed machines.frames machines.frame
  have lines := map_eq machines.frames pairing.traceLine
  rw [Machine.error, Machine.error, Machine.backtrace, Machine.backtrace, lines,
    pairing.traceVariables machines.frame]
  congr 1
  · exact pairing.span? blamed
  · exact congrArg some (pairing.file blamed)

theorem fail (cause : Cause) : pairing.Outcomes (first.fail cause) (second.fail cause) := by
  rw [Machine.fail, Machine.fail, machines.error]
  exact .fault _ machines.scene

theorem setStack (stack : Stack) : pairing.Machines { first with stack } { second with stack } :=
  { machines with stack := rfl }

theorem push (value : Value) : pairing.Machines (first.push value) (second.push value) := by
  rw [Machine.push, Machine.push, machines.stack]
  exact machines.setStack _

theorem withTop {continuation other : Value → Machine → Machine.Outcome} (continues : ∀ value stack,
      pairing.Outcomes (continuation value { first with stack })
        (other value { second with stack })) :
    pairing.Outcomes (first.withTop continuation) (second.withTop other) := by
  rw [Machine.withTop, Machine.withTop, machines.stack]
  split
  · exact continues _ _
  · exact machines.fail _

theorem withValues (count : Nat) {continuation other : List Value → Machine → Machine.Outcome}
    (continues : ∀ values stack, pairing.Outcomes (continuation values { first with stack })
      (other values { second with stack })) :
    pairing.Outcomes (first.withValues count continuation) (second.withValues count other) := by
  rw [Machine.withValues, Machine.withValues, machines.stack]
  split
  · exact continues _ _
  · exact machines.fail _

theorem jump {label other : Nat} (lands : pairing.Lands first.frame second.frame label other) :
    pairing.Outcomes (first.jump label) (second.jump other) := by
  rw [Machine.jump, Machine.jump]
  rcases lands with ⟨offset, target, otherTarget, frames⟩ | ⟨rfl, nowhere, otherNowhere⟩
  · rw [target, otherTarget]
    exact .next { machines with frame := frames }
  · rw [nowhere, otherNowhere]
    exact machines.fail _

theorem callRoutine (limit : Nat) (name : String) (count : Nat)
    {link other : CompiledModule × Routine} (links : pairing.Links link other) :
    pairing.Outcomes (first.callRoutine limit name count link.1 link.2)
      (second.callRoutine limit name count other.1 other.2) := by
  rw [Machine.callRoutine, Machine.callRoutine, links.1, machines.depth]
  split
  · exact machines.fail _
  · split
    · exact machines.fail _
    · refine machines.withValues count fun args stack => .next ?_
      have called := links.2 args stack.height
      rw [links.1] at called
      simp only [Machine.enterRoutine, links.1, machines.depth]
      exact ⟨called, machines.frames, rfl, rfl, machines.scene⟩

theorem callBuiltin (name : String) (count : Nat) (builtin : Builtin) :
    pairing.Outcomes (first.callBuiltin name count builtin)
      (second.callBuiltin name count builtin) := by
  rw [Machine.callBuiltin, Machine.callBuiltin]
  split
  · exact machines.fail _
  · refine machines.withValues count fun args stack => ?_
    dsimp only
    rcases pairing.builtin machines.scene builtin args with ⟨cause, fails, otherFails⟩ |
      ⟨board, other, value, runs, otherRuns⟩ | ⟨board, other, runs, otherRuns, scenes⟩
    · rw [fails, otherFails]
      exact (machines.setStack stack).fail cause
    · rw [runs, otherRuns]
      exact .next ((machines.setStack stack).push value)
    · rw [runs, otherRuns]
      refine .next { machines.setStack stack with scene := ?_ }
      rw [Machine.record, Machine.record, pairing.name machines.frame]
      exact scenes _ _

theorem finish (toCaller : List Value) (result : Bindings) :
    pairing.Outcomes (first.finish toCaller result) (second.finish toCaller result) := by
  have callers := machines.callers
  rw [Machine.finish, Machine.finish]
  generalize first.callers = waiting, second.callers = otherWaiting at callers
  cases callers with
  | nil => exact .done _ machines.scene
  | cons caller others =>
    dsimp only
    rw [machines.stack, pairing.base machines.frame, machines.depth]
    exact .next ⟨caller, others, rfl, rfl, machines.scene⟩

theorem returnNamed (limit count : Nat) {names others : List String}
    (same : names.map plainName = others.map plainName) :
    pairing.Outcomes (first.execute limit (.returnNamed count names))
      (second.execute limit (.returnNamed count others)) := by
  rw [Machine.execute, Machine.execute, same]
  exact machines.withValues count fun values stack => (machines.setStack stack).finish [] _

/-- An instruction that does the same to both machines keeps them together. -/
theorem execute (limit : Nat) {instr : Instruction} {labels others : Nat → Nat}
    {names otherNames : String → String}
    (alike : pairing.Alike first second instr labels others names otherNames) :
    pairing.Outcomes (first.execute limit (instr.renamed labels names))
      (second.execute limit (instr.renamed others otherNames)) := by
  cases instr with
  | pushConstant value => exact .next (machines.push value)
  | pushVariable name =>
    obtain ⟨same, known⟩ := alike.reads name rfl
    simp only [Instruction.renamed, Machine.execute, ← same]
    split
    · exact .next (machines.push _)
    next unset =>
      rw [known.resolve_right (not_not_intro unset)]
      exact machines.fail _
  | assign name =>
    simp only [Instruction.renamed, Machine.execute]
    exact machines.withTop fun value stack => .next ⟨alike.sets name value rfl, machines.callers,
      machines.depth, rfl, machines.scene⟩
  | deleteVariable name => exact .next { machines with frame := alike.erases name rfl }
  | label => exact .next machines
  | jump label => exact machines.jump (alike.lands label rfl)
  | jumpIfFalse label =>
    simp only [Instruction.renamed, Machine.execute]
    refine machines.withTop fun value stack => ?_
    split
    · exact .next (machines.setStack stack)
    · exact (machines.setStack stack).jump (alike.lands label rfl)
    · exact (machines.setStack stack).fail _
  | jumpIfNotIn values label =>
    simp only [Instruction.renamed, Machine.execute]
    refine machines.withTop fun value stack => ?_
    split
    · exact .next (machines.setStack stack)
    · exact (machines.setStack stack).jump (alike.lands label rfl)
  | call name count =>
    have links := alike.links name count rfl
    simp only [Instruction.renamed, Machine.execute, Machine.call]
    generalize first.frame.home.exported? name = link, second.frame.home.exported? name = otherLink
      at links
    cases links with
    | some both => exact machines.callRoutine limit name count both
    | none =>
      dsimp only
      split
      · exact machines.callBuiltin name count _
      · exact machines.fail _
  | boom msg => exact machines.fail _
  | enter => exact .next { machines with scene := alike.enters }
  | leave => exact .next { machines with scene := alike.leaves rfl }
  | returnValues count =>
    simp only [Instruction.renamed, Machine.execute]
    exact machines.withValues count fun values stack => (machines.setStack stack).finish values []
  | returnNamed count names => exact machines.returnNamed limit count rfl

omit machines in
theorem step {limit : Nat} (machines : pairing.Machines first.advance second.advance)
    (executes : Option.Rel (fun line other => pairing.Outcomes
        (first.advance.execute limit line.1) (second.advance.execute limit other.1))
      first.frame.routine.code[first.frame.offset]?
      second.frame.routine.code[second.frame.offset]?) :
    pairing.Outcomes (first.step limit) (second.step limit) := by
  have sameName : first.advance.frame.routine.name = second.advance.frame.routine.name :=
    pairing.name machines.frame
  unfold Machine.step
  dsimp only
  rw [show first.frame.routine.name = second.frame.routine.name from sameName]
  generalize first.frame.routine.code[first.frame.offset]? = line,
    second.frame.routine.code[second.frame.offset]? = other at executes
  cases executes with
  | some outcomes => exact outcomes
  | none => exact machines.fail _

end Machines

/-- An instruction does the same to calls with the same variables and labels. -/
theorem alike_self {first second : Machine} {instr : Instruction}
    (locals : first.frame.locals = second.frame.locals)
    (labels : first.frame.routine.labels = second.frame.routine.labels)
    (changes : ∀ locals, pairing.Frames { first.frame with locals } { second.frame with locals })
    (moves : ∀ offset, pairing.Frames { first.frame with offset } { second.frame with offset })
    (links : ∀ name count, instr = .call name count → Option.Rel pairing.Links
      (first.frame.home.exported? name) (second.frame.home.exported? name))
    (enters : pairing.Scenes ⟨first.scene.board.save, first.scene.log.openMark⟩
      ⟨second.scene.board.save, second.scene.log.openMark⟩) (leaves : instr = .leave →
      pairing.Scenes ⟨first.scene.board.restore, first.scene.log.closeMark⟩
        ⟨second.scene.board.restore, second.scene.log.closeMark⟩) :
    pairing.Alike first second instr id id id id where
  reads name _ := ⟨by rw [locals], .inl rfl⟩
  sets name value _ := by
    rw [Frame.setVariable, Frame.setVariable, locals]
    exact changes _
  erases name _ := by
    rw [Frame.eraseVariable, Frame.eraseVariable, locals]
    exact changes _
  lands label _ := by
    unfold Lands Routine.target?
    rw [labels]
    cases found : second.frame.routine.labels.lookup label with
    | none => exact .inr ⟨rfl, found, found⟩
    | some offset => exact .inl ⟨offset, found, found, moves offset⟩
  links := links
  enters := enters
  leaves := leaves

end Pairing

end StoneBoard
