import StoneBoard.Proofs.Faults
import StoneBoard.Proofs.ValueTypes

/-!
# Calls of builtins

A call of a builtin that is given its number of arguments is answered as its kind tells, and a call
that fails changes nothing.  The variants do what the general functions do.
-/

namespace StoneBoard

/-- How a machine goes on after a call of a builtin, whose arguments it has taken off the stack. -/
inductive Builtin.Answers (machine : Machine) (arguments : List Value) :
    Builtin → Machine.Outcome → Prop
  /-- the arguments or the board are to blame; nothing has been changed -/
  | fails {builtin : Builtin} {cause : Cause} (operational : cause.isOperational = true) :
      Answers machine arguments builtin (.fault (machine.error cause) machine.scene)
  /-- a function gives one value and changes nothing else -/
  | gives {builtin : Builtin} (isFunction : builtin.kind = .function) (value : Value) :
      Answers machine arguments builtin
        (.next { machine with stack := machine.stack.push value })
  /-- a procedure gives no value and changes the board and the log only -/
  | acts {act : Action} {board : Board}
      (performed : act.perform arguments machine.scene.board = .ok board) (log : RunLog) :
      Answers machine arguments (.action act) (.next { machine with scene := ⟨board, log⟩ })

def Machine.callWith (machine : Machine) (name : String) (arguments : List Value)
    (builtin : Builtin) : Outcome :=
  { machine with stack := machine.stack.pushMany arguments }.callBuiltin name arguments.length
    builtin

/-- How a machine goes on with the result of a builtin. -/
def Machine.goOn (machine : Machine) (name : String) (arguments : List Value) :
    Except Cause (Board × Option Value) → Outcome
  | .error cause => machine.fail cause
  | .ok (board, none) => .next (machine.record name arguments board)
  | .ok (_, some value) => .next (machine.push value)

variable {builtin : Builtin} {machine : Machine} {name : String} {args : List Value}

theorem Machine.callWith_eq (arity : builtin.arity = args.length) :
    machine.callWith name args builtin =
      machine.goOn name args (builtin.run args machine.scene.board) := by
  simp only [callWith, callBuiltin, arity, ne_eq, not_true_eq_false, if_false, withValues,
    Stack.popMany?_pushMany]
  rcases builtin.run args machine.scene.board with cause | ⟨board, _ | value⟩ <;> rfl

namespace Builtin

theorem answers_call (listed : builtin ∈ all) (arity : builtin.arity = args.length) :
    Answers machine args builtin (machine.callWith name args builtin) := by
  rw [Machine.callWith_eq arity]
  rcases ran : builtin.run args machine.scene.board with cause | ⟨board, _ | value⟩
  · exact .fails (FailsExpectedly.run listed _ arity cause ran)
  · obtain ⟨act, rfl, performed⟩ := run_eq_ok_none ran
    exact .acts performed _
  · refine .gives ?_ value
    cases builtin with
    | action act => simp [run] at ran
    | operation | variant => rfl

theorem callWith_variant {op : Operation} {type : BasicTy} (listed : variant op type ∈ all)
    (arity : (variant op type).arity = args.length)
    (typed : ∀ arg ∈ args, arg.basicTy? = some type) :
    machine.callWith name args (variant op type) = machine.callWith name args (operation op) := by
  rw [Machine.callWith_eq arity,
    Machine.callWith_eq ((arity_of_variant_mem_all listed).trans arity)]
  obtain ⟨arg, rfl⟩ := List.length_eq_one_iff.mp arity.symm
  rw [run_variant, if_pos (typed arg List.mem_cons_self)]

end Builtin

def idleMachine : Machine :=
  .start ⟨"", "main.gbs", [], []⟩ ⟨"Main", .procedure, [], #[], []⟩ (.ofBoard (.blank 1 1))

end StoneBoard
