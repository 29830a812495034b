import StoneBoard.Proofs.Replay
import StoneBoard.Proofs.Tables

/-!
# What one instruction does

All that a step of a machine can come to, said once.  What other modules need of a step, about the
frames, about the scene or about errors, follows from the cases of `Machine.Does`.
-/

namespace StoneBoard

variable {builtin : Builtin}

namespace Instruction

@[simp]
def written? : Instruction → Option String
  | assign name | deleteVariable name => some name
  | _ => none

def isReturn : Instruction → Bool
  | returnValues _ | returnNamed _ _ => true
  | _ => false

@[simp]
def isPlain : Instruction → Bool
  | enter | leave | returnValues _ | returnNamed _ _ => false
  | _ => true

theorem isReturn_of_isPlain {instr : Instruction} (plain : instr.isPlain = true) :
    instr.isReturn = false := by
  cases instr <;> first | rfl | cases plain

end Instruction

def Cause.callLimit? : Cause → Option Nat
  | stackOverflow limit => some limit
  | _ => none

namespace Builtin

theorem ofName?_eq_some {name : String} (found : ofName? name = some builtin) :
    builtin ∈ all ∧ builtin.name = name := by
  obtain ⟨other, listed, same⟩ := List.mem_map.mp (Table.mem_of_get? found)
  cases same
  exact ⟨listed, rfl⟩

/-- Only the builtin procedures give no value, and they are what changes the board. -/
theorem run_eq_ok_none {args : List Value} {before after : Board}
    (ran : builtin.run args before = .ok (after, none)) :
    ∃ action, builtin = .action action ∧ action.perform args before = .ok after := by
  cases builtin with
  | action act => simpa [run] using ran
  | operation op => simp [run] at ran
  | variant op ty =>
    simp only [run] at ran
    split at ran <;> simp at ran

end Builtin

namespace Machine

/-- Why an instruction may fail: for a reason of its own, because there are as many calls as there
may be, or because a builtin fails. -/
def Hinders (maxDepth : Nat) (machine : Machine) (cause : Cause) : Prop :=
  cause.callLimit? = none ∨ cause = .stackOverflow maxDepth ∨
    ∃ builtin arguments below, builtin ∈ Builtin.all ∧
      machine.stack.popMany? builtin.arity = some (arguments, below) ∧
      builtin.run arguments machine.scene.board = .error cause

/-- What an instruction makes of a machine that points to it. -/
inductive Does (maxDepth : Nat) (machine : Machine) (instruction : Instruction) : Outcome → Prop
  /-- the innermost call goes on behind the instruction or at a label, and no variable but the one
  that is written has another value -/
  | goes {offset : Nat} {locals : Bindings} (stack : Stack) (plain : instruction.isPlain = true)
      (place : offset = machine.frame.offset + 1 ∨ ∃ label, instruction.target? = some label ∧
        machine.frame.routine.target? label = some offset)
      (others : ∀ name, instruction.written? ≠ some name →
        Table.get? locals name = Table.get? machine.frame.locals name)
      (distinct : (machine.frame.locals.map Prod.fst).Nodup → (locals.map Prod.fst).Nodup) :
      Does maxDepth machine instruction
        (.next { machine with frame := { machine.frame with offset, locals }, stack })
  /-- a builtin procedure changes the board -/
  | records {action : Action} {arguments : List Value} {board : Board} (stack : Stack)
      (plain : instruction.isPlain = true)
      (performed : action.perform arguments machine.scene.board = .ok board) :
      Does maxDepth machine instruction (.next { machine.advance with
        stack
        scene := ⟨board, machine.scene.log.record machine.frame.routine.name
          (Deed.text ⟨action, arguments⟩) board.head⟩ })
  | saves (isEnter : instruction = .enter) :
      Does maxDepth machine instruction (.next { machine.advance with
        scene := ⟨machine.scene.board.save, machine.scene.log.openMark⟩ })
  | restores (isLeave : instruction = .leave) :
      Does maxDepth machine instruction (.next { machine.advance with
        scene := ⟨machine.scene.board.restore, machine.scene.log.closeMark⟩ })
  /-- a call of a routine that the module of the innermost call knows -/
  | calls {name : String} {count : Nat} {home : CompiledModule} {routine : Routine}
      (arguments : List Value) (stack : Stack) (isCall : instruction = .call name count)
      (known : machine.frame.home.exported? name = some (home, routine)) :
      Does maxDepth machine instruction
        (.next ({ machine.advance with stack }.enterRoutine home routine arguments))
  | returns {caller : Frame} {callers : List Frame} (stack : Stack)
      (isReturn : instruction.isReturn = true) (waiting : machine.callers = caller :: callers) :
      Does maxDepth machine instruction (.next { machine with
        frame := caller, callers, depth := machine.depth - 1, stack })
  | ends (result : Bindings) : Does maxDepth machine instruction (.done result machine.scene)
  | fails {cause : Cause} (hinders : machine.Hinders maxDepth cause) :
      Does maxDepth machine instruction (.fault (machine.advance.error cause) machine.scene)

variable {machine : Machine} {maxDepth : Nat} {instr : Instruction}

theorem withValues_does {count : Nat} {continuation : List Value → Machine → Outcome}
    (continues : ∀ values stack, machine.stack.popMany? count = some (values, stack) →
      machine.Does maxDepth instr (continuation values { machine.advance with stack })) :
    machine.Does maxDepth instr (machine.advance.withValues count continuation) := by
  unfold withValues
  split
  next popped => exact continues _ _ popped
  next => exact .fails (.inl rfl)

theorem withTop_does {continuation : Value → Machine → Outcome} (continues : ∀ value stack,
      machine.Does maxDepth instr (continuation value { machine.advance with stack })) :
    machine.Does maxDepth instr (machine.advance.withTop continuation) := by
  unfold withTop
  split
  · exact continues _ _
  · exact .fails (.inl rfl)

theorem Does.goesOn (plain : instr.isPlain = true) (stack : Stack) :
    machine.Does maxDepth instr (.next { machine.advance with stack }) :=
  .goes stack plain (.inl rfl) (fun _ _ => rfl) id

theorem jump_does {label : Nat} (plain : instr.isPlain = true)
    (jumps : instr.target? = some label) (stack : Stack) :
    machine.Does maxDepth instr ({ machine.advance with stack }.jump label) := by
  unfold jump
  split
  next found => exact .goes stack plain (.inr ⟨label, jumps, found⟩) (fun _ _ => rfl) id
  next => exact .fails (.inl rfl)

theorem finish_does (returns : instr.isReturn = true) (values : List Value)
    (result : Bindings) (stack : Stack) :
    machine.Does maxDepth instr ({ machine.advance with stack }.finish values result) := by
  unfold finish
  split
  · exact .ends result
  next waiting => exact .returns _ returns waiting

theorem callBuiltin_does {name other : String} (found : Builtin.ofName? name = some builtin)
    (count : Nat) :
    machine.Does maxDepth (.call other count) (machine.advance.callBuiltin name count builtin) := by
  obtain ⟨listed, sameName⟩ := Builtin.ofName?_eq_some found
  unfold callBuiltin
  split
  · exact .fails (.inl rfl)
  next arity =>
    refine withValues_does fun args stack popped => ?_
    dsimp only
    split
    next cause failed =>
      rw [← not_ne_iff.mp arity] at popped
      exact .fails (.inr (.inr ⟨builtin, args, stack, listed, popped, failed⟩))
    next board ran =>
      obtain ⟨action, rfl, performed⟩ := Builtin.run_eq_ok_none ran
      subst sameName
      exact .records stack rfl performed
    next => exact .goesOn rfl _

theorem call_does (name : String) (count : Nat) :
    machine.Does maxDepth (.call name count) (machine.advance.call maxDepth name count) := by
  unfold call
  split
  next known =>
    unfold callRoutine
    dsimp only
    split
    · exact .fails (.inl rfl)
    · split
      · exact .fails (.inr (.inl rfl))
      · exact withValues_does fun args stack _ => .calls args stack rfl known
  next =>
    split
    next found => exact callBuiltin_does found count
    next => exact .fails (.inl rfl)

theorem execute_does (instr : Instruction) :
    machine.Does maxDepth instr (machine.advance.execute maxDepth instr) := by
  cases instr with
  | pushConstant | label => exact .goesOn rfl _
  | pushVariable name =>
    simp only [execute]
    split
    · exact .goesOn rfl _
    · exact .fails (.inl rfl)
  | assign name =>
    simp only [execute]
    refine withTop_does fun value stack => .goes stack rfl (.inl rfl) (fun other unwritten => ?_)
      (Table.nodup_insert · name value)
    rw [Table.get?_insert, if_neg (fun same => unwritten (congrArg some same.symm))]
    rfl
  | deleteVariable name =>
    refine .goes _ rfl (.inl rfl) (fun other unwritten => ?_) (Table.nodup_erase · name)
    rw [Table.get?_erase, if_neg (fun same => unwritten (congrArg some same.symm))]
    rfl
  | jump target => exact jump_does rfl rfl machine.stack
  | jumpIfFalse target =>
    simp only [execute]
    refine withTop_does fun value stack => ?_
    split
    · exact .goesOn rfl _
    · exact jump_does rfl rfl stack
    · exact .fails (.inl rfl)
  | jumpIfNotIn values target =>
    simp only [execute]
    refine withTop_does fun value stack => ?_
    split
    · exact .goesOn rfl _
    · exact jump_does rfl rfl stack
  | call name count => exact call_does name count
  | boom msg => exact .fails (.inl rfl)
  | enter => exact .saves rfl
  | leave => exact .restores rfl
  | returnValues count =>
    simp only [execute]
    exact withValues_does fun values stack _ => finish_does rfl values [] stack
  | returnNamed count names =>
    simp only [execute]
    exact withValues_does fun values stack _ => finish_does rfl [] _ stack

/-- A step does what an instruction does, or fails because there is none. -/
theorem step_does (maxDepth : Nat) (machine : Machine) : (∃ instr span,
      machine.frame.routine.code[machine.frame.offset]? = some (instr, span) ∧
        machine.Does maxDepth instr (machine.step maxDepth)) ∨
    ∃ cause, cause.callLimit? = none ∧ machine.step maxDepth = machine.advance.fail cause := by
  unfold step
  dsimp only
  split
  next instr span found => exact .inl ⟨instr, span, found, execute_does instr⟩
  next => exact .inr ⟨_, rfl, rfl⟩

theorem does_of_step {next : Machine} (stepped : machine.step maxDepth = .next next) : ∃ instr span,
      machine.frame.routine.code[machine.frame.offset]? = some (instr, span) ∧
        machine.Does maxDepth instr (.next next) := by
  rcases step_does maxDepth machine with ⟨instr, span, found, does⟩ | ⟨cause, -, fails⟩
  · exact ⟨instr, span, found, stepped ▸ does⟩
  · cases stepped.symm.trans fails

end Machine

end StoneBoard
