import Mathlib.Tactic.SplitIfs
import StoneBoard.Proofs.ExpressionCode

/-!
# Why builtins fail

A builtin that is given its number of arguments only fails for causes that the arguments and
the board are to blame for.
-/

namespace StoneBoard

open List

variable {cause : Cause} {callee : Builtin}

def Cause.isExpected : Cause → Bool
  | argumentType _ | incomparableValues _ _ | divisionByZero | negativeExponent | emptyList
  | emptyColor _ | stoneOverflow _ | cannotMove _ | uninitializedVariable _
  | conditionNotBoolean | stackOverflow _ | boom _ => true
  | _ => false

namespace Cause

def isOperational : Cause → Bool
  | argumentType _ | incomparableValues _ _ | divisionByZero | negativeExponent | emptyList
  | emptyColor _ | stoneOverflow _ | cannotMove _ => true
  | _ => false

theorem isExpected_of_isOperational (operational : cause.isOperational = true) :
    cause.isExpected = true := by
  cases cause <;> first | rfl | cases operational

theorem isOperational_ofBoardFault (fault : BoardFault) :
    (ofBoardFault fault).isOperational = true := by
  cases fault <;> rfl

end Cause

namespace Builtin

theorem isPolymorphic_of_variant_mem_all {op : Operation} {ty : BasicTy}
    (listed : variant op ty ∈ all) : op.isPolymorphic = true := by
  simp only [all, mem_append, mem_map, mem_flatMap, reduceCtorEq, and_false,
    exists_false, false_or] at listed
  obtain ⟨other, -, inVariants⟩ := listed
  unfold variants at inVariants
  split at inVariants
  next poly =>
    obtain ⟨_, -, same⟩ := List.mem_map.mp inVariants
    cases same
    exact poly
  next => cases inVariants

theorem arity_of_variant_mem_all {op : Operation} {ty : BasicTy}
    (listed : variant op ty ∈ all) : (operation op).arity = 1 := by
  have poly := isPolymorphic_of_variant_mem_all listed
  cases op <;> first | rfl | cases poly

theorem forTypes_mem_all (listed : callee ∈ all) (types : Option (List BasicTy)) :
    callee.forTypes types ∈ all := by
  unfold forTypes
  split
  next op ty =>
    split
    next poly => exact variant_mem_all poly ty
    next => exact listed
  next => exact listed

end Builtin

/-- Something that only fails for causes that arguments and the board are to blame for. -/
def FailsExpectedly {α : Type} (outcome : Except Cause α) : Prop :=
  ∀ cause, outcome = .error cause → cause.isOperational = true

namespace FailsExpectedly

variable {α β : Type}
variable {args : List Value}

theorem ok (value : α) : FailsExpectedly (.ok value) := by
  intro cause failed
  cases failed

theorem error (operational : cause.isOperational = true) :
    FailsExpectedly (.error cause : Except Cause α) := by
  intro other failed
  cases failed
  exact operational

theorem bind {first : Except Cause α} {next : α → Except Cause β}
    (before : FailsExpectedly first) (after : ∀ value, FailsExpectedly (next value)) :
    FailsExpectedly (first >>= next) := by
  cases first with
  | error cause => exact error (before cause rfl)
  | ok value => exact after value

theorem map {first : Except Cause α} (before : FailsExpectedly first) (change : α → β) :
    FailsExpectedly (do return change (← first)) :=
  before.bind fun value => ok (change value)

theorem ofBoard (outcome : Except BoardFault α) :
    FailsExpectedly (outcome.mapError .ofBoardFault) := by
  cases outcome with
  | error fault => exact error (Cause.isOperational_ofBoardFault fault)
  | ok value => exact ok value

theorem asColor (routine : String) (value : Value) : FailsExpectedly (value.asColor routine) := by
  unfold Value.asColor
  split
  · exact ok _
  · exact error rfl

theorem asDirection (routine : String) (value : Value) :
    FailsExpectedly (value.asDirection routine) := by
  unfold Value.asDirection
  split
  · exact ok _
  · exact error rfl

theorem asList (routine : String) (value : Value) : FailsExpectedly (value.asList routine) := by
  unfold Value.asList
  split
  · exact ok _
  · exact error rfl

theorem asBool (value : Value) : FailsExpectedly value.asBool := by
  unfold Value.asBool
  split
  · exact ok _
  · exact error rfl

theorem asNonempty (routine : String) (value : Value) :
    FailsExpectedly (value.asNonempty routine) := by
  refine (asList routine value).bind fun items => ?_
  cases items with
  | nil => exact error rfl
  | cons first rest => exact ok _

theorem oppositeOf (value : Value) : FailsExpectedly (StoneBoard.oppositeOf value) := by
  unfold StoneBoard.oppositeOf
  split
  · exact ok _
  · exact ok _
  · exact error rfl

theorem relation (holds : Ordering → Bool) (first second : Value) :
    FailsExpectedly (StoneBoard.relation holds first second) := by
  unfold StoneBoard.relation
  split
  · exact ok _
  · exact error rfl

theorem arithmetic {operate : Int → Int → Except Cause Int}
    (operates : ∀ first second, FailsExpectedly (operate first second)) (first second : Value) :
    FailsExpectedly (StoneBoard.arithmetic operate first second) := by
  have asInts : FailsExpectedly (Value.asInts first second) := by
    unfold Value.asInts
    split
    · exact ok _
    · exact error rfl
  refine asInts.bind fun numbers => ?_
  exact (operates numbers.1 numbers.2).map _

theorem integerPower (base exponent : Int) :
    FailsExpectedly (StoneBoard.integerPower base exponent) := by
  unfold StoneBoard.integerPower
  split_ifs
  · exact error rfl
  · exact error rfl
  · exact ok _

theorem integerDiv (dividend divisor : Int) :
    FailsExpectedly (StoneBoard.integerDiv dividend divisor) := by
  unfold StoneBoard.integerDiv
  split
  · exact error rfl
  · exact ok _

theorem integerMod (dividend divisor : Int) :
    FailsExpectedly (StoneBoard.integerMod dividend divisor) := by
  unfold StoneBoard.integerMod
  split
  · exact error rfl
  · exact ok _

theorem perform (action : Action) (board : Board) (arity : action.parameters.length = args.length) :
    FailsExpectedly (action.perform args board) := by
  cases action
  case putStone | takeStone =>
    obtain ⟨arg, rfl⟩ := List.length_eq_one_iff.mp arity.symm
    exact (asColor _ arg).bind fun color => ofBoard _
  case move =>
    obtain ⟨arg, rfl⟩ := List.length_eq_one_iff.mp arity.symm
    exact (asDirection _ arg).bind fun dir => ofBoard _
  case goToOrigin | clearBoard =>
    obtain rfl := eq_nil_of_length_eq_zero arity.symm
    exact ok _

theorem apply (op : Operation) (board : Board) (arity : op.parameters.length = args.length) :
    FailsExpectedly (op.apply args board) := by
  cases op
  case minBool | maxBool | minDir | maxDir | minColor | maxColor | nil =>
    obtain rfl := eq_nil_of_length_eq_zero arity.symm
    exact ok _
  case numStones | existStones =>
    obtain ⟨arg, rfl⟩ := List.length_eq_one_iff.mp arity.symm
    exact (asColor _ arg).map _
  case canMove =>
    obtain ⟨arg, rfl⟩ := List.length_eq_one_iff.mp arity.symm
    exact (asDirection _ arg).map _
  case next | prev =>
    obtain ⟨arg, rfl⟩ := List.length_eq_one_iff.mp arity.symm
    exact ok _
  case opposite | negate =>
    obtain ⟨arg, rfl⟩ := List.length_eq_one_iff.mp arity.symm
    exact oppositeOf arg
  case not =>
    obtain ⟨arg, rfl⟩ := List.length_eq_one_iff.mp arity.symm
    exact (asBool arg).map _
  case equal | notEqual | less | lessEqual | greaterEqual | greater =>
    obtain ⟨first, second, rfl⟩ := List.length_eq_two.mp arity.symm
    exact relation _ first second
  case and | or =>
    obtain ⟨first, second, rfl⟩ := List.length_eq_two.mp arity.symm
    exact (asBool first).bind fun _ => (asBool second).map _
  case add | subtract | multiply =>
    obtain ⟨first, second, rfl⟩ := List.length_eq_two.mp arity.symm
    exact arithmetic (fun _ _ => ok _) first second
  case power =>
    obtain ⟨first, second, rfl⟩ := List.length_eq_two.mp arity.symm
    exact arithmetic integerPower first second
  case div =>
    obtain ⟨first, second, rfl⟩ := List.length_eq_two.mp arity.symm
    exact arithmetic integerDiv first second
  case mod =>
    obtain ⟨first, second, rfl⟩ := List.length_eq_two.mp arity.symm
    exact arithmetic integerMod first second
  case cons =>
    obtain ⟨item, items, rfl⟩ := List.length_eq_two.mp arity.symm
    exact (asList _ items).map _
  case snoc =>
    obtain ⟨items, item, rfl⟩ := List.length_eq_two.mp arity.symm
    exact (asList _ items).map _
  case isNil =>
    obtain ⟨items, rfl⟩ := List.length_eq_one_iff.mp arity.symm
    exact (asList _ items).map _
  case head | last | tail | init =>
    obtain ⟨items, rfl⟩ := List.length_eq_one_iff.mp arity.symm
    exact (asNonempty _ items).bind fun _ => ok _

/-- A builtin that is given its number of arguments fails for causes of builtins only. -/
theorem run (listed : callee ∈ Builtin.all) (board : Board)
    (arity : callee.arity = args.length) : FailsExpectedly (callee.run args board) := by
  cases callee with
  | action act => exact (perform act board arity).map _
  | operation op => exact (apply op board arity).map _
  | variant op ty =>
    have sameArity : op.parameters.length = args.length :=
      (Builtin.arity_of_variant_mem_all listed).trans arity
    simp only [Builtin.run]
    split
    · exact error rfl
    · exact (apply op board sameArity).map _

end FailsExpectedly

end StoneBoard
