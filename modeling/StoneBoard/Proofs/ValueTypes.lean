import Mathlib.Data.List.Forall2
import Mathlib.Tactic.SplitIfs
import StoneBoard.Builtin
import StoneBoard.Proofs.Success

/-!
# Types and the values that have them

A type tells something about values.  It is below another type if all that it tells is told
by the other one too; then every value of the other type has it as well.

The builtin functions keep to types: from the types of the arguments follows the type of the
value.  Only the variants of polymorphic functions fail because of a tag, which is a cause
that no other builtin has.
-/

namespace StoneBoard

open List

variable {ty : Ty}
variable {tag : BasicTy} {text : String} {value : Value}
variable {found : Ty}

/-! ## The order of types -/

namespace Ty

variable {found types : List Ty}

/-- All that the first type tells is told by the second one. -/
def Below : Ty → Ty → Prop
  | unknown, _ => True
  | basic first, basic second => first = second
  | list first, list second => Below first second
  | _, _ => False

theorem unknown_below (ty : Ty) : unknown.Below ty := by
  cases ty <;> trivial

theorem Below.refl (ty : Ty) : ty.Below ty := by
  induction ty with
  | unknown => trivial
  | basic => rfl
  | list elem ih => exact ih

@[simp]
theorem below_unknown : ty.Below unknown ↔ ty = unknown := by
  cases ty <;> simp [Below]

theorem eq_of_basic_below {ty : BasicTy} {other : Ty} (below : (basic ty).Below other) :
    other = basic ty := by
  cases other <;> simp_all [Below]

theorem eq_of_basic? {found : Ty} (below : found.Below ty) (isBasic : found.basic? = some tag) :
    ty = basic tag := by
  cases found with
  | basic => cases isBasic; exact eq_of_basic_below below
  | unknown | list => cases isBasic

/-- What two types tell together is told by every type that tells both. -/
theorem Below.unify {first second : Ty} (firstBelow : first.Below ty)
    (secondBelow : second.Below ty) : (first.unify second).Below ty := by
  induction first generalizing second ty with
  | unknown => exact secondBelow
  | basic tag => cases second <;> exact firstBelow
  | list elem ih =>
    cases second with
    | unknown | basic => exact firstBelow
    | list other =>
      cases ty with
      | unknown | basic => exact firstBelow.elim
      | list => exact ih firstBelow secondBelow

def BelowAll : List Ty → List Ty → Prop
  | first :: rest, ty :: types => first.Below ty ∧ BelowAll rest types
  | _, _ => True

theorem belowAll_nil (types : List Ty) : BelowAll [] types := by
  cases types <;> trivial

theorem belowAll_unknown (count : Nat) (types : List Ty) :
    BelowAll (List.replicate count unknown) types := by
  induction count generalizing types with
  | zero => exact belowAll_nil types
  | succ count ih =>
    cases types with
    | nil => trivial
    | cons ty types => exact ⟨unknown_below ty, ih types⟩

theorem BelowAll.head (below : BelowAll found (ty :: types)) : (found.headD unknown).Below ty := by
  cases found with
  | nil => exact unknown_below ty
  | cons => exact below.1

theorem BelowAll.tail (below : BelowAll found (ty :: types)) : BelowAll found.tail types := by
  cases found with
  | nil => exact belowAll_nil types
  | cons => exact below.2

theorem belowAll_of_forall₂ (below : List.Forall₂ Below found types) : BelowAll found types := by
  induction below with
  | nil => trivial
  | cons first _ ih => exact ⟨first, ih⟩

theorem eq_of_mapM_basic? {tags : List BasicTy} (below : List.Forall₂ Below found types)
    (allBasic : found.mapM basic? = some tags) : types = tags.map basic := by
  induction below generalizing tags with
  | nil =>
    cases allBasic
    rfl
  | cons first _ ih =>
    simp only [mapM_cons, Option.bind_eq_bind, Option.bind_eq_some_iff, Option.pure_def,
      Option.some.injEq] at allBasic
    obtain ⟨tag, isBasic, rest, restBasic, rfl⟩ := allBasic
    rw [map_cons, eq_of_basic? first isBasic, ih restBasic]

end Ty

/-! ## Values -/

namespace Value

variable {value : Value}

def HasTy : Value → Ty → Prop
  | _, .unknown => True
  | value, .basic tag => value.basicTy? = some tag
  | value, .list element => ∃ items, value = .list items ∧ ∀ item ∈ items, item.HasTy element

theorem HasTy.of_below (holds : value.HasTy ty) (below : found.Below ty) : value.HasTy found := by
  induction found generalizing value ty with
  | unknown => trivial
  | basic tag =>
    cases Ty.eq_of_basic_below below
    exact holds
  | list elem ih =>
    cases ty with
    | unknown | basic => exact below.elim
    | list =>
      obtain ⟨items, rfl, itemsHold⟩ := holds
      exact ⟨items, rfl, fun item mem => ih (itemsHold item mem) below⟩

theorem nextAll_eq_map (items : List Value) : nextAll items = items.map next := by
  induction items with
  | nil => rfl
  | cons first rest ih => rw [nextAll, map_cons, ih]

theorem previousAll_eq_map (items : List Value) : previousAll items = items.map previous := by
  induction items with
  | nil => rfl
  | cons first rest ih => rw [previousAll, map_cons, ih]

/-- A change of scalars that keeps their tags keeps types if it works on lists item by item. -/
theorem HasTy.change {change : Value → Value}
    (tags : ∀ value, (change value).basicTy? = value.basicTy?)
    (lists : ∀ items, change (.list items) = .list (items.map change)) (holds : value.HasTy ty) :
    (change value).HasTy ty := by
  induction ty generalizing value with
  | unknown => trivial
  | basic tag => exact (tags value).trans holds
  | list elem ih =>
    obtain ⟨items, rfl, itemsHold⟩ := holds
    refine ⟨items.map change, lists items, fun item mem => ?_⟩
    obtain ⟨orig, originalMember, rfl⟩ := List.mem_map.mp mem
    exact ih (itemsHold orig originalMember)

theorem HasTy.of_tag {other : Value} (holds : value.HasTy ty) (isTag : value.basicTy? = some tag)
    (sameTag : other.basicTy? = some tag) : other.HasTy ty := by
  cases ty with
  | unknown => trivial
  | basic known => exact sameTag.trans (isTag.symm.trans holds)
  | list elem =>
    obtain ⟨items, rfl, -⟩ := holds
    cases isTag

theorem HasTy.next (holds : value.HasTy ty) : value.next.HasTy ty := by
  apply holds.change
  · intro value
    cases value <;> rfl
  · intro items
    rw [Value.next, nextAll_eq_map]

theorem HasTy.previous (holds : value.HasTy ty) : value.previous.HasTy ty := by
  apply holds.change
  · intro value
    cases value <;> rfl
  · intro items
    rw [Value.previous, previousAll_eq_map]

end Value

/-! ## Signatures -/

/-- A type fits a parameter of a signature with a type in place of the type variable. -/
def SignatureTy.Accepts (binding : Ty) : SignatureTy → Ty → Prop
  | exact _, _ => True
  | variableTy, ty => ty = binding
  | listOfVariable, ty => ty = .list binding ∨ ty = .unknown ∧ binding = .unknown

/-- A function gives a value of a type for arguments of some types.  Where the type of the
value does not depend on the arguments, only their number counts. -/
inductive Operation.Gives (op : Operation) (given : List Ty) : Ty → Prop
  | constant {ty : Ty} (result : op.result = .exact ty)
      (counted : given.length = op.parameters.length) : op.Gives given ty
  | generic (binding : Ty)
      (accepted : List.Forall₂ (SignatureTy.Accepts binding) op.parameters given) :
      op.Gives given (op.result.instantiate binding)

/-! ## Tags -/

namespace Builtin

theorem run_operation (op : Operation) (args : List Value) (board : Board) :
    (operation op).run args board = (op.apply args board).map fun value => (board, some value) := by
  rw [run]
  cases op.apply args board <;> rfl

/-- A variant looks at the type of its argument and then does what the builtin does. -/
theorem run_variant (op : Operation) (ty : BasicTy) (value : Value) (board : Board) :
    (variant op ty).run [value] board =
      if value.basicTy? = some ty then (operation op).run [value] board
      else .error (variantFault op ty value) := by
  by_cases fits : value.basicTy? = some ty <;> simp [run, fits]

end Builtin

/-- The cause for which a variant of a polymorphic function refuses its argument. -/
def Cause.IsTagFault (cause : Cause) : Prop :=
  ∃ op ty value, op.isPolymorphic = true ∧ cause = Builtin.variantFault op ty value

theorem Cause.IsTagFault.starts (tagFault : IsTagFault (.argumentType text)) :
    ∃ first ∈ ['n', 'p', 'o', 'u'], text.toList.head? = some first := by
  obtain ⟨op, ty, value, poly, same⟩ := tagFault
  simp only [Builtin.variantFault, argumentType.injEq] at same
  subst same
  cases op <;> simp only [Operation.isPolymorphic, Bool.false_eq_true] at poly <;>
    simp [variantName, Operation.name, String.toList_append]

theorem Cause.not_isTagFault_of_head (first : Char) (starts : text.toList.head? = some first)
    (other : first ∉ ['n', 'p', 'o', 'u']) : ¬ IsTagFault (.argumentType text) := by
  intro tagFault
  obtain ⟨start, listed, isStart⟩ := tagFault.starts
  rw [starts] at isStart
  cases isStart
  exact other listed

/-- A computation that gives good values, and never fails because of a tag. -/
def Yields {α : Type} (outcome : Except Cause α) (good : α → Prop) : Prop :=
  match outcome with
  | .ok value => good value
  | .error cause => ¬ cause.IsTagFault

namespace Yields

variable {α β : Type}
variable {good : α → Prop} {first : Except Cause α} {better : β → Prop}

theorem ok {value : α} (isGood : good value) : Yields (.ok value) good := isGood

theorem bind {next : α → Except Cause β} (before : Yields first good)
    (after : ∀ value, good value → Yields (next value) better) :
    Yields (first >>= next) better := by
  cases first with
  | error cause => exact before
  | ok value => exact after value before

theorem map (before : Yields first good) {change : α → β}
    (after : ∀ value, good value → better (change value)) :
    Yields (do return change (← first)) better :=
  before.bind fun value isGood => after value isGood

theorem argumentFault (routine wanted : String) (value : Value) (good : α → Prop) :
    Yields (.error (argumentFault routine wanted value)) good := by
  apply Cause.not_isTagFault_of_head 't'
  · simp [toString, String.toList_append]
  · decide

theorem asColor (routine : String) (value : Value) :
    Yields (value.asColor routine) fun _ => True := by
  unfold Value.asColor
  split
  · trivial
  · exact argumentFault _ _ _ _

theorem asDirection (routine : String) (value : Value) :
    Yields (value.asDirection routine) fun _ => True := by
  unfold Value.asDirection
  split
  · trivial
  · exact argumentFault _ _ _ _

theorem asList (routine : String) (value : Value) :
    Yields (value.asList routine) fun items => value = .list items := by
  unfold Value.asList
  split
  · rfl
  · exact argumentFault _ _ _ _

theorem asBool (value : Value) : Yields value.asBool fun _ => True := by
  unfold Value.asBool
  split
  · trivial
  · apply Cause.not_isTagFault_of_head 'l' rfl
    decide

theorem oppositeOf (holds : value.HasTy ty) :
    Yields (StoneBoard.oppositeOf value) (·.HasTy ty) := by
  unfold StoneBoard.oppositeOf
  split
  next => exact holds.of_tag rfl rfl
  next => exact holds.of_tag rfl rfl
  next =>
    apply Cause.not_isTagFault_of_head 't' rfl
    decide

theorem relation (holds : Ordering → Bool) (first second : Value) :
    Yields (StoneBoard.relation holds first second) (·.HasTy .bool) := by
  unfold StoneBoard.relation
  split
  · rfl
  · exact nofun

theorem arithmetic {operate : Int → Int → Except Cause Int}
    (operates : ∀ first second, Yields (operate first second) fun _ => True)
    (first second : Value) :
    Yields (StoneBoard.arithmetic operate first second) (·.HasTy .int) := by
  have asInts : Yields (Value.asInts first second) fun _ => True := by
    unfold Value.asInts
    split
    · trivial
    · apply Cause.not_isTagFault_of_head 'a' rfl
      decide
  refine asInts.bind fun numbers _ => ?_
  exact (operates numbers.1 numbers.2).map fun _ _ => rfl

theorem integerPower (base exponent : Int) :
    Yields (StoneBoard.integerPower base exponent) fun _ => True := by
  unfold StoneBoard.integerPower
  split_ifs
  · exact nofun
  · apply Cause.not_isTagFault_of_head 'e'
    · simp [toString, String.toList_append]
    · decide
  · trivial

theorem integerDiv (dividend divisor : Int) :
    Yields (StoneBoard.integerDiv dividend divisor) fun _ => True := by
  unfold StoneBoard.integerDiv
  split
  · exact nofun
  · trivial

theorem integerMod (dividend divisor : Int) :
    Yields (StoneBoard.integerMod dividend divisor) fun _ => True := by
  unfold StoneBoard.integerMod
  split
  · exact nofun
  · trivial

theorem ofBoard (outcome : Except BoardFault α) :
    Yields (outcome.mapError .ofBoardFault) fun _ => True := by
  cases outcome with
  | error fault => cases fault <;> exact nofun
  | ok value => trivial

end Yields

theorem Action.yields (act : Action) (args : List Value) (board : Board) :
    Yields (act.perform args board) fun _ => True := by
  unfold perform
  split
  next arg => exact (Yields.asColor _ arg).bind fun _ _ => .ofBoard _
  next arg => exact (Yields.asColor _ arg).bind fun _ _ => .ofBoard _
  next arg => exact (Yields.asDirection _ arg).bind fun _ _ => .ofBoard _
  next => trivial
  next => trivial
  next => exact nofun

namespace Operation

variable {args : List Value} {binding : Ty}
variable {given : Ty}

theorem yields_constant (op : Operation) (result : op.result = .exact ty)
    (counted : args.length = op.parameters.length) (board : Board) :
    Yields (op.apply args board) (·.HasTy ty) := by
  cases op <;> cases result
  case minBool | maxBool | minDir | maxDir | minColor | maxColor =>
    obtain rfl := eq_nil_of_length_eq_zero counted
    rfl
  case numStones | existStones =>
    obtain ⟨arg, rfl⟩ := List.length_eq_one_iff.mp counted
    exact (Yields.asColor _ arg).map fun _ _ => rfl
  case canMove =>
    obtain ⟨arg, rfl⟩ := List.length_eq_one_iff.mp counted
    exact (Yields.asDirection _ arg).map fun _ _ => rfl
  case not =>
    obtain ⟨arg, rfl⟩ := List.length_eq_one_iff.mp counted
    exact (Yields.asBool arg).map fun _ _ => rfl
  case isNil =>
    obtain ⟨items, rfl⟩ := List.length_eq_one_iff.mp counted
    exact (Yields.asList _ items).map fun _ _ => rfl
  case equal | notEqual | less | lessEqual | greaterEqual | greater =>
    obtain ⟨first, second, rfl⟩ := List.length_eq_two.mp counted
    exact .relation _ first second
  case and | or =>
    obtain ⟨first, second, rfl⟩ := List.length_eq_two.mp counted
    exact (Yields.asBool first).bind fun _ _ => (Yields.asBool second).map fun _ _ => rfl
  case add | subtract | multiply =>
    obtain ⟨first, second, rfl⟩ := List.length_eq_two.mp counted
    exact .arithmetic (fun _ _ => .ok trivial) first second
  case power =>
    obtain ⟨first, second, rfl⟩ := List.length_eq_two.mp counted
    exact .arithmetic .integerPower first second
  case div =>
    obtain ⟨first, second, rfl⟩ := List.length_eq_two.mp counted
    exact .arithmetic .integerDiv first second
  case mod =>
    obtain ⟨first, second, rfl⟩ := List.length_eq_two.mp counted
    exact .arithmetic .integerMod first second

/-- A list that is accepted in place of a list of some type has only items of that type. -/
theorem hasTy_of_accepts {items : List Value}
    (accepted : SignatureTy.listOfVariable.Accepts binding given)
    (holds : (Value.list items).HasTy given) : ∀ item ∈ items, item.HasTy binding := by
  intro item mem
  rcases accepted with rfl | ⟨-, rfl⟩
  · obtain ⟨_, same, itemsHold⟩ := holds
    cases same
    exact itemsHold item mem
  · trivial

theorem yields_asNonempty (routine : String)
    (accepted : SignatureTy.listOfVariable.Accepts binding given) (holds : value.HasTy given) :
    Yields (value.asNonempty routine) fun parts =>
      ∀ item ∈ parts.1 :: parts.2, item.HasTy binding := by
  refine (Yields.asList routine value).bind fun items same => ?_
  subst same
  cases items with
  | nil => exact nofun
  | cons first rest => exact hasTy_of_accepts accepted holds

theorem exists_argument {param : SignatureTy} {given : List Ty}
    (accepted : List.Forall₂ (SignatureTy.Accepts binding) [param] given)
    (holds : List.Forall₂ Value.HasTy args given) :
    ∃ arg ty, args = [arg] ∧ param.Accepts binding ty ∧ arg.HasTy ty := by
  rcases accepted with _ | ⟨acceptsFirst, _ | _⟩
  rcases holds with _ | ⟨argumentHolds, _ | _⟩
  exact ⟨_, _, rfl, acceptsFirst, argumentHolds⟩

theorem yields (op : Operation) {given : List Ty} (gives : op.Gives given ty)
    (holds : List.Forall₂ Value.HasTy args given) (board : Board) :
    Yields (op.apply args board) (·.HasTy ty) := by
  cases gives with
  | constant result counted => exact op.yields_constant result (holds.length_eq.trans counted) board
  | generic binding accepted =>
    cases op
    case next =>
      obtain ⟨arg, _, rfl, rfl, argumentHolds⟩ := exists_argument accepted holds
      exact argumentHolds.next
    case prev =>
      obtain ⟨arg, _, rfl, rfl, argumentHolds⟩ := exists_argument accepted holds
      exact argumentHolds.previous
    case opposite | negate =>
      obtain ⟨arg, _, rfl, rfl, argumentHolds⟩ := exists_argument accepted holds
      exact .oppositeOf argumentHolds
    case head =>
      obtain ⟨items, _, rfl, isList, itemsHold⟩ := exists_argument accepted holds
      refine (yields_asNonempty _ isList itemsHold).bind fun parts allHold => ?_
      exact allHold _ mem_cons_self
    case last =>
      obtain ⟨items, _, rfl, isList, itemsHold⟩ := exists_argument accepted holds
      refine (yields_asNonempty _ isList itemsHold).bind fun parts allHold => ?_
      exact allHold _ (getLast_mem _)
    case tail =>
      obtain ⟨items, _, rfl, isList, itemsHold⟩ := exists_argument accepted holds
      refine (yields_asNonempty _ isList itemsHold).bind fun parts allHold => ?_
      exact ⟨_, rfl, fun item mem => allHold item (mem_cons_of_mem _ mem)⟩
    case init =>
      obtain ⟨items, _, rfl, isList, itemsHold⟩ := exists_argument accepted holds
      refine (yields_asNonempty _ isList itemsHold).bind fun parts allHold => ?_
      exact ⟨_, rfl, fun item mem => allHold item ((dropLast_sublist _).subset mem)⟩
    case nil =>
      rcases accepted with _ | _
      rcases holds with _ | _
      exact ⟨[], rfl, fun item mem => by cases mem⟩
    case cons =>
      rcases accepted with _ | ⟨rfl, _ | ⟨isList, _ | _⟩⟩
      rcases holds with _ | ⟨itemHolds, _ | ⟨itemsHold, _ | _⟩⟩
      refine (Yields.asList _ _).map fun items same => ?_
      subst same
      refine ⟨_, rfl, List.forall_mem_cons.mpr ⟨itemHolds, ?_⟩⟩
      exact hasTy_of_accepts isList itemsHold
    case snoc =>
      rcases accepted with _ | ⟨isList, _ | ⟨rfl, _ | _⟩⟩
      rcases holds with _ | ⟨itemsHold, _ | ⟨itemHolds, _ | _⟩⟩
      refine (Yields.asList _ _).map fun items same => ?_
      subst same
      refine ⟨_, rfl, List.forall_mem_append.mpr ⟨hasTy_of_accepts isList itemsHold, ?_⟩⟩
      exact List.forall_mem_singleton.mpr itemHolds
    all_goals
      exact yields_constant _ rfl (holds.length_eq.trans accepted.length_eq.symm) board

end Operation

end StoneBoard
