import StoneBoard.Machine
import Mathlib.Order.Compare

/-!
# Comparisons

Values are compared by their ordinals, in lexicographic order.  So the six comparisons are those of
a total preorder, and they can be made between the same values.  Values that have the same ordinals
are the same where there is one way only to cut the ordinals into scalars of one type.
-/

namespace StoneBoard

open List

namespace Value

theorem compareOrdinals_eq_compare (first second : List Int) :
    compareOrdinals first second = compare first second := by
  induction first generalizing second with
  | nil => cases second <;> rfl
  | cons head tail ih =>
    cases second with
    | nil => rfl
    | cons other others =>
      rw [compareOrdinals, ih, List.compare_cons_cons]
      rcases Int.lt_trichotomy head other with less | rfl | more
      · simp [less, Int.compare_eq_lt.mpr less]
      · simp
      · simp [more, Int.lt_asymm more, Int.compare_eq_gt.mpr more]

/-- Both are lists, or both are scalars of the same basic type. -/
inductive Alike : Value → Value → Prop
  | lists (items others : List Value) : Alike (.list items) (.list others)
  | scalars {first second : Value} {type : BasicTy} (isFirst : first.basicTy? = some type)
      (isSecond : second.basicTy? = some type) : Alike first second

variable {first second : Value}

theorem alike_iff : Alike first second ↔ first.basicTy? = second.basicTy? := by
  constructor
  · rintro (_ | ⟨isFirst, isSecond⟩)
    · rfl
    · exact isFirst.trans isSecond.symm
  · intro same
    cases isFirst : first.basicTy? with
    | some type => exact .scalars isFirst (same ▸ isFirst)
    | none =>
      rw [isFirst] at same
      cases first <;> cases isFirst
      cases second <;> cases same
      exact .lists _ _

theorem compare?_of_alike (alike : Alike first second) :
    first.compare? second = some (compare first.ordinals second.ordinals) := by
  have comparable : first.comparable second = true := by
    have same := alike_iff.mp alike
    cases first <;> cases second <;> first | rfl | cases same
  rw [compare?, if_pos comparable, compareOrdinals_eq_compare]

theorem compare?_of_not_alike (differ : ¬Alike first second) : first.compare? second = none := by
  rw [alike_iff] at differ
  cases first <;> cases second <;> first | rfl | exact absurd rfl differ

/-! ## Values with the same ordinals -/

theorem eq_of_ordinals {type : BasicTy} (isFirst : first.basicTy? = some type)
    (isSecond : second.basicTy? = some type) (same : first.ordinals = second.ordinals) :
    first = second := by
  cases type <;> cases first <;> cases isFirst <;> cases second <;> cases isSecond
  case int => simpa [ordinals] using same
  -- the other types are finite
  all_goals
    rename_i value other
    cases value <;> cases other <;> first | rfl | cases same

theorem eq_of_ordinalsAll {type : BasicTy} {items others : List Value}
    (areItems : ∀ item ∈ items, item.basicTy? = some type)
    (areOthers : ∀ item ∈ others, item.basicTy? = some type)
    (same : ordinalsAll items = ordinalsAll others) : items = others := by
  have single {value : Value} (scalar : value.basicTy? = some type) :
      ∃ ordinal, value.ordinals = [ordinal] := by
    cases value <;> cases scalar <;> exact ⟨_, rfl⟩
  induction items generalizing others with
  | nil =>
    cases others with
    | nil => rfl
    | cons other others =>
      obtain ⟨ordinal, isOrdinal⟩ := single (areOthers other mem_cons_self)
      simp [ordinalsAll, isOrdinal] at same
  | cons item items ih =>
    obtain ⟨ordinal, isOrdinal⟩ := single (areItems item mem_cons_self)
    cases others with
    | nil => simp [ordinalsAll, isOrdinal] at same
    | cons other others =>
      obtain ⟨place, isPlace⟩ := single (areOthers other mem_cons_self)
      simp only [ordinalsAll, isOrdinal, isPlace, cons_append, nil_append, List.cons.injEq] at same
      rw [forall_mem_cons] at areItems areOthers
      rw [eq_of_ordinals areItems.1 areOthers.1 (by rw [isOrdinal, isPlace, same.1]),
        ih areItems.2 areOthers.2 same.2]

/-- Both are scalars, or both are lists of scalars of one basic type. -/
inductive Plain : Value → Value → Prop
  | scalars {first second : Value} (isFirst : first.basicTy? ≠ none)
      (isSecond : second.basicTy? ≠ none) : Plain first second
  | lists {items others : List Value} {type : BasicTy}
      (areItems : ∀ item ∈ items, item.basicTy? = some type)
      (areOthers : ∀ item ∈ others, item.basicTy? = some type) :
      Plain (.list items) (.list others)

theorem Plain.eq_iff (plain : Plain first second) :
    Alike first second ∧ first.ordinals = second.ordinals ↔ first = second := by
  refine ⟨fun ⟨alike, same⟩ => ?_, fun same => same ▸ ⟨alike_iff.mpr rfl, rfl⟩⟩
  cases plain with
  | scalars isFirst isSecond =>
    obtain ⟨type, isType⟩ := Option.ne_none_iff_exists'.mp isFirst
    exact eq_of_ordinals isType (alike_iff.mp alike ▸ isType) same
  | lists areItems areOthers => exact congrArg list (eq_of_ordinalsAll areItems areOthers same)

end Value

open Value

/-! ## The six comparisons -/

def comparisons : List Operation :=
  [.equal, .notEqual, .less, .lessEqual, .greaterEqual, .greater]

def Operation.accepts : Operation → Ordering → Bool
  | equal => (· == .eq)
  | notEqual => (· != .eq)
  | less => (· == .lt)
  | lessEqual => (· != .gt)
  | greaterEqual => (· != .lt)
  | greater => (· == .gt)
  | _ => fun _ => false

/-- A comparison of two values that can be made, and what it tells. -/
def Tells (op : Operation) (first second : Value) (truth : Bool) : Prop :=
  ∀ board, (Builtin.operation op).run [first, second] board = .ok (board, some (.bool truth))

variable {first second third : Value}

theorem tells_iff {op : Operation} (compares : op ∈ comparisons) {truth : Bool} :
    Tells op first second truth ↔
      Alike first second ∧ op.accepts (compare first.ordinals second.ordinals) = truth := by
  have runs (board : Board) : (Builtin.operation op).run [first, second] board =
      (relation op.accepts first second >>= fun value => pure (board, some value)) := by
    simp only [comparisons, mem_cons, not_mem_nil, or_false] at compares
    rcases compares with rfl | rfl | rfl | rfl | rfl | rfl <;> rfl
  simp only [Tells, runs, relation]
  by_cases alike : Alike first second
  · simp only [compare?_of_alike alike, alike, true_and]
    constructor
    · intro told
      cases told (.blank 1 1)
      rfl
    · rintro rfl board
      rfl
  · simp only [compare?_of_not_alike alike, alike, false_and, iff_false]
    intro told
    cases told (.blank 1 1)

abbrev Holds (op : Operation) (first second : Value) : Prop := Tells op first second true

/-- The comparisons of two values fit together, and with those of the values swapped. -/
structure Ordered (first second : Value) : Prop where
  total : Holds .less first second ∨ Holds .equal first second ∨ Holds .greater first second
  exclusive : ¬(Holds .less first second ∧ Holds .equal first second) ∧
    ¬(Holds .less first second ∧ Holds .greater first second) ∧
    ¬(Holds .equal first second ∧ Holds .greater first second)
  lessEqual : Holds .lessEqual first second ↔ ¬Holds .greater first second
  greaterEqual : Holds .greaterEqual first second ↔ ¬Holds .less first second
  notEqual : Holds .notEqual first second ↔ ¬Holds .equal first second
  swapLess : Holds .less first second ↔ Holds .greater second first
  swapLessEqual : Holds .lessEqual first second ↔ Holds .greaterEqual second first
  swapEqual : Holds .equal first second ↔ Holds .equal second first

theorem ordered_of_alike (alike : Alike first second) : Ordered first second := by
  have back : Alike second first := alike_iff.mpr (alike_iff.mp alike).symm
  have swapped : compare second.ordinals first.ordinals = _ := Std.OrientedCmp.eq_swap
  constructor <;>
    simp (disch := decide) only [tells_iff, alike, back, swapped, true_and, Operation.accepts] <;>
    cases compare first.ordinals second.ordinals <;> decide

theorem holds_lessEqual_trans (early : Holds .lessEqual first second)
    (late : Holds .lessEqual second third) : Holds .lessEqual first third := by
  simp (disch := decide) only [tells_iff, alike_iff, Operation.accepts, bne_iff_ne, ne_eq,
    ← Ordering.isLE_iff_ne_gt] at early late ⊢
  exact ⟨early.1.trans late.1, Std.TransCmp.isLE_trans early.2 late.2⟩

theorem holds_equal_iff (plain : Plain first second) :
    Holds .equal first second ↔ first = second := by
  rw [Holds, tells_iff (by decide), ← plain.eq_iff]
  simp only [Operation.accepts, beq_iff_eq, Std.LawfulEqCmp.compare_eq_iff_eq]

/-- The comparisons are those of a total preorder, and on plain values they tell equal values from
others, like the branches of a case do. -/
theorem comparisons_form_preorder (first second third : Value) :
    (∀ op ∈ comparisons, (∃ truth, Tells op first second truth) ↔ Alike first second) ∧
    (Alike first second → Ordered first second) ∧
    (Holds .lessEqual first second → Holds .lessEqual second third →
      Holds .lessEqual first third) ∧
    (Plain first second → (Holds .equal first second ↔ first = second)) ∧
    ∀ values, (∀ value ∈ values, Plain first value) →
      ∀ (maxDepth : Nat) (machine : Machine) (target : Nat),
      ((∃ value ∈ values, Holds .equal first value) ∧
        (machine.push first).execute maxDepth (.jumpIfNotIn values target) = .next machine) ∨
      ((∀ value ∈ values, ¬Holds .equal first value) ∧
        (machine.push first).execute maxDepth (.jumpIfNotIn values target) =
          machine.jump target) := by
  refine ⟨fun op compares => ?_, ordered_of_alike, holds_lessEqual_trans, holds_equal_iff,
    fun values plain maxDepth machine target => ?_⟩
  · simp [tells_iff compares]
  · have tested : (machine.push first).execute maxDepth (.jumpIfNotIn values target) =
        if values.contains first then .next machine else machine.jump target := rfl
    rw [tested]
    by_cases member : first ∈ values
    · rw [if_pos (List.contains_iff_mem.mpr member)]
      exact .inl ⟨⟨first, member, (holds_equal_iff (plain first member)).mpr rfl⟩, rfl⟩
    · rw [if_neg (mt List.contains_iff_mem.mp member)]
      refine .inr ⟨fun value isValue holds => member ?_, rfl⟩
      rwa [(holds_equal_iff (plain value isValue)).mp holds]

theorem nestedList_ordered :
    Ordered (.list [.int 1, .int 2]) (.list [.list [.int 1], .int 2]) ∧
      (Holds .equal (.list [.int 1]) (.list [.int 1]) ↔ Value.list [.int 1] = .list [.int 1]) :=
  ⟨(comparisons_form_preorder _ _ (.int 0)).2.1 (.lists _ _),
    (comparisons_form_preorder _ _ (.int 0)).2.2.2.1
      (.lists (List.forall_mem_singleton.mpr rfl) (List.forall_mem_singleton.mpr rfl))⟩

end StoneBoard
