import StoneBoard.Proofs.Following
import StoneBoard.Proofs.Tables

/-!
# Places in code

Where the lines of a fragment stand in a routine, where its labels lead, and what one
instruction does to a machine that stands in front of it.
-/

namespace StoneBoard

open List

variable {label : Nat}
variable {target : Nat}

/-! ## Stacks -/

namespace Stack

theorem ext_items {first second : Stack} (same : first.items = second.items) : first = second := by
  obtain ⟨items, height, counted⟩ := first
  obtain ⟨others, otherHeight, otherCounted⟩ := second
  subst counted otherCounted
  cases same
  rfl

theorem items_pushMany (stack : Stack) (values : List Value) :
    (stack.pushMany values).items = values.reverse ++ stack.items := by
  induction values generalizing stack with
  | nil => rfl
  | cons value rest ih =>
    have unfolded : stack.pushMany (value :: rest) = (stack.push value).pushMany rest := rfl
    rw [unfolded, ih]
    simp [push]

@[simp]
theorem pushMany_nil (stack : Stack) : stack.pushMany [] = stack := rfl

@[simp]
theorem pushMany_cons (stack : Stack) (value : Value) (rest : List Value) :
    stack.pushMany (value :: rest) = (stack.push value).pushMany rest := rfl

theorem pushMany_append (stack : Stack) (first second : List Value) :
    stack.pushMany (first ++ second) = (stack.pushMany first).pushMany second :=
  foldl_append

theorem height_pushMany (stack : Stack) (values : List Value) :
    (stack.pushMany values).height = stack.height + values.length := by
  rw [height_eq, items_pushMany, height_eq]
  simp [Nat.add_comm]

@[simp]
theorem popMany?_pushMany (stack : Stack) (values : List Value) :
    (stack.pushMany values).popMany? values.length = some (values, stack) := by
  have enough : ¬ (stack.pushMany values).height < values.length := by
    rw [height_pushMany]
    omega
  rw [popMany?, if_neg enough, Option.some.injEq, Prod.mk.injEq]
  constructor
  · simp [items_pushMany]
  · apply ext_items
    simp [items_pushMany]

@[simp]
theorem truncate_height (stack : Stack) : stack.truncate stack.height = stack := by
  apply ext_items
  simp [truncate]

end Stack

/-! ## Lines and labels -/

namespace Routine

variable {routine : Routine} {offset : Nat} {name : String} {lines : List Line}
variable {labels placed : LabelTable}

def HasCode (routine : Routine) (offset : Nat) (lines : List Line) : Prop :=
  ∀ index line, lines[index]? = some line → routine.code[offset + index]? = some line

@[simp]
theorem hasCode_nil (routine : Routine) (offset : Nat) : routine.HasCode offset [] := by
  simp [HasCode]

@[simp]
theorem hasCode_cons {line : Line} {rest : List Line} : routine.HasCode offset (line :: rest) ↔
      routine.code[offset]? = some line ∧ routine.HasCode (offset + 1) rest := by
  constructor
  · intro code
    refine ⟨code 0 line rfl, fun index other found => ?_⟩
    have there := code (index + 1) other found
    rwa [← Nat.add_assoc, Nat.add_right_comm] at there
  · rintro ⟨here, code⟩ index other found
    cases index with
    | zero =>
      rw [getElem?_cons_zero] at found
      rw [← found]
      exact here
    | succ index =>
      rw [← Nat.add_assoc, Nat.add_right_comm]
      exact code index other found

@[simp]
theorem hasCode_append {first second : List Line} : routine.HasCode offset (first ++ second) ↔
      routine.HasCode offset first ∧ routine.HasCode (offset + first.length) second := by
  induction first generalizing offset with
  | nil => simp
  | cons line rest ih =>
    rw [cons_append, hasCode_cons, hasCode_cons, ih, and_assoc, length_cons,
      Nat.add_right_comm, Nat.add_assoc offset]

def Placed (routine : Routine) : Prop :=
  ∀ offset label span, routine.code[offset]? = some (.label label, span) →
    routine.target? label = some (offset + 1)

theorem placeLabels_keeps (succeeds : placeLabels name labels offset lines = (placed, none))
    (known : labels.lookup label = some target) : placed.lookup label = some target := by
  fun_induction placeLabels name labels offset lines with
  | case1 => cases succeeds; exact known
  | case2 => simp at succeeds
  | case3 labels offset other span rest extended fresh ih =>
    refine ih succeeds ?_
    have differ : (label == other) = false := by
      rw [beq_eq_false_iff_ne]
      rintro rfl
      rw [known] at fresh
      exact fresh rfl
    rw [lookup_cons, differ]
    exact known
  | case4 labels offset line rest notLabel ih => exact ih succeeds known

theorem placeLabels_places (succeeds : placeLabels name labels offset lines = (placed, none))
    {index : Nat} {span : Span} (here : lines[index]? = some (.label label, span)) :
    placed.lookup label = some (offset + index + 1) := by
  fun_induction placeLabels name labels offset lines generalizing index with
  | case1 => cases here
  | case2 => simp at succeeds
  | case3 labels offset other otherSpan rest extended fresh ih =>
    cases index with
    | zero =>
      cases here
      exact placeLabels_keeps succeeds (by rw [lookup_cons, beq_self_eq_true])
    | succ index =>
      rw [ih succeeds here]
      congr 1
      omega
  | case4 labels offset line rest notLabel ih =>
    cases index with
    | zero =>
      cases here
      exact absurd rfl (notLabel label span)
    | succ index =>
      rw [ih succeeds here]
      congr 1
      omega

theorem code_of_assemble {kind : RoutineKind} {params : List String}
    (assembled : assemble name kind params lines = .ok routine) : routine.code.toList = lines := by
  simp only [assemble, resolveLabels] at assembled
  split at assembled
  next resolved correct =>
    cases assembled
    split at correct
    · cases correct
    · obtain ⟨rfl, -⟩ := Prod.mk.inj correct
      rfl
  next => cases assembled

theorem assemble_eq_ok {kind : RoutineKind} {params : List String}
    (assembled : assemble name kind params lines = .ok routine) :
    routine.name = name ∧ routine.kind = kind ∧ routine.parameters = params ∧
      routine.HasCode 0 lines ∧ routine.Placed := by
  simp only [assemble, resolveLabels] at assembled
  split at assembled
  next resolved correct =>
    cases assembled
    split at correct
    next => cases correct
    next labels placed =>
      obtain ⟨rfl, -⟩ := Prod.mk.inj correct
      refine ⟨rfl, rfl, rfl, ?_, ?_⟩
      · intro index line found
        simpa using found
      · intro offset label span found
        have there := placeLabels_places placed (by simpa using found)
        rwa [Nat.zero_add] at there
  next => cases assembled

end Routine

/-! ## Machines in the middle of a call -/

namespace Machine

/-- The machine at another place of the same call, with other variables, another stack and
another scene. -/
def resume (machine : Machine) (offset : Nat) (locals : Bindings) (stack : Stack)
    (scene : Scene) : Machine :=
  { machine with frame := { machine.frame with offset, locals }, stack, scene }

variable {limit floor fuel offset : Nat} {base : Machine} {held : Bindings} {stack : Stack}
  {scene : Scene} {span : Span}

@[simp]
theorem resume_scene : (base.resume offset held stack scene).scene = scene := rfl

theorem step_resume {instr : Instruction}
    (found : base.frame.routine.code[offset]? = some (instr, span)) :
    (base.resume offset held stack scene).step limit =
      (base.resume (offset + 1) held stack scene).execute limit instr := by
  simp only [step, resume]
  rw [found]
  rfl

theorem jump_resume (found : base.frame.routine.target? label = some target) :
    (base.resume offset held stack scene).jump label =
      .next (base.resume target held stack scene) := by
  have read : (base.resume offset held stack scene).frame.routine.target? label =
      some target := found
  rw [jump, read]
  rfl

namespace Follows

variable {α : Type} {eval : Evaluation α} {ends : α → Machine → Prop}
variable {machine : Machine}

theorem instruction {instr : Instruction} {place : Nat} {after : Bindings}
    {values : Stack} (deep : floor ≤ base.callers.length)
    (found : base.frame.routine.code[offset]? = some (instr, span))
    (executed : (base.resume (offset + 1) held stack scene).execute limit instr =
      .next (base.resume place after values scene))
    (follows : Follows limit floor fuel (base.resume place after values scene) eval ends) :
    Follows limit floor fuel (base.resume offset held stack scene) eval ends :=
  follows.step deep ((step_resume found).trans executed) rfl

theorem ofStep {next : Machine} {value : α} (deep : floor ≤ machine.callers.length)
    (stepped : machine.step limit = .next next)
    (evaluated : eval.run.run machine.scene = some (.ok value, next.scene))
    (there : ends value next) : Follows limit floor fuel machine eval ends := by
  rw [Follows, evaluated]
  exact ⟨1, next, .head deep stepped (.refl _), rfl, there⟩

theorem ofFault {error : Error} {last : Scene} (deep : floor ≤ machine.callers.length)
    (failed : machine.step limit = .fault error last)
    (evaluated : eval.run.run machine.scene = some (.error error.cause, last)) :
    Follows limit floor fuel machine eval ends := by
  rw [Follows, evaluated]
  exact ⟨0, machine, error, .refl _, deep, failed, rfl⟩

end Follows

end Machine

end StoneBoard
