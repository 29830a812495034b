import StoneBoard.Proofs.TypedConduct

/-!
# Tag checks in typed programs

A variant of a polymorphic function looks at the tag of its argument before it does anything.
In the runs of a program to which types can be given, the tag is always the one of the variant:
what inference has put into the slots is true of the values that arrive there.

Not every accepted program is of that kind.  Nothing is known of parameters, and a variable
whose type is known may be given the value of one.
-/

namespace StoneBoard

namespace Machine

variable {machine : Machine} {op : Operation} {ty : BasicTy}

def variant? (machine : Machine) : Option (Operation × BasicTy) :=
  match machine.frame.routine.code[machine.frame.offset]? with
  | some (.call name _, _) =>
      match machine.frame.home.exported? name, Builtin.ofName? name with
      | none, some (.variant op ty) => some (op, ty)
      | _, _ => none
  | _ => none

theorem step_of_variant? (calls : machine.variant? = some (op, ty)) (limit : Nat) :
    op.isPolymorphic = true ∧ ∃ name count, machine.step limit =
      machine.advance.callBuiltin name count (.variant op ty) := by
  unfold variant? at calls
  split at calls
  next name count span here =>
    split at calls
    next notRoutine isVariant =>
      cases calls
      obtain ⟨listed, -⟩ := Builtin.ofName?_eq_some isVariant
      refine ⟨Builtin.isPolymorphic_of_variant_mem_all listed, name, count, ?_⟩
      simp only [step, here, execute, call, advance, notRoutine, isVariant]
    next => cases calls
  next => cases calls

/-- A machine that calls a variant has an argument with the right tag for it; otherwise it fails,
because of the tag or in a way that is not to be expected. -/
theorem hasTag_or_fault (calls : machine.variant? = some (op, ty)) (limit : Nat) :
    (∃ value, machine.stack.items.head? = some value ∧ value.basicTy? = some ty) ∨
      ∃ error scene, machine.step limit = .fault error scene ∧
        (error.cause.isExpected = false ∨ error.cause.IsTagFault) := by
  obtain ⟨poly, name, count, called⟩ := step_of_variant? calls limit
  rw [called, callBuiltin]
  split
  · exact .inr ⟨_, _, rfl, .inl rfl⟩
  next arity =>
    obtain rfl : count = 1 := (not_ne_iff.mp arity).symm
    unfold withValues
    split
    next args below popped =>
      obtain ⟨stacked, counted⟩ := Stack.pushMany_of_popMany? popped
      obtain ⟨value, rfl⟩ := List.length_eq_one_iff.mp counted
      have onTop : machine.stack.items.head? = some value := by
        rw [show machine.stack = below.pushMany [value] from stacked]
        rfl
      by_cases hasTag : value.basicTy? = some ty
      · exact .inl ⟨value, onTop, hasTag⟩
      · right
        simp only [Builtin.run_variant, if_neg hasTag]
        exact ⟨_, _, rfl, .inr ⟨op, ty, value, poly, rfl⟩⟩
    next => exact .inr ⟨_, _, rfl, .inl rfl⟩

end Machine

theorem Site.outcome?_of_fault {site : Site} {main : Definition} {home : CompiledModule}
    {routine : Routine} (found : site.program.definition? "Main" = some main)
    (isMain : main.isMain = true) (isRoutine : home.routines.get? "Main" = some routine)
    (realizes : Realizes site main home routine) {limit steps : Nat} {scene after : Scene}
    {machine : Machine} {error : Error}
    (reached : Machine.Steps limit 0 steps (.start home routine scene) machine)
    (fails : machine.step limit = .fault error after) :
    ∃ fuel, site.outcome? limit fuel scene = some (.error error.cause, after) := by
  apply (run_iff_outcome? found isMain isRoutine realizes limit scene _).mp
  refine ⟨steps + 1, ?_⟩
  rw [CompiledModule.run, isRoutine]
  dsimp only
  rw [reached.run_add, Machine.run, fails]
  rfl

def mixedSource : String :=
  "function f(x) \x7b
     y := 3
     y := x
     return (next(y))
   \x7d
   procedure Main() \x7b
     c := f(Red)
     return (c)
   \x7d"

def countSource : String :=
  "procedure Count(n) \x7b
     repeatWith i in 1..n \x7b Skip \x7d
   \x7d
   procedure Main() \x7b Count(2) \x7d"

def definesCount : List Definition → Bool
  | [⟨.procedure, "Count", ["n"],
        [.repeatWith "i" (.literal (.int _) _) (.variableRef "n" _) [.skip _] _ _], _⟩,
      ⟨.procedure, "Main", [], [.procedureCall "Count" [.literal (.int _) _] _], _⟩] => true
  | _ => false

theorem count_wellTyped : ∃ site, Site.ofEntry? ⟨.empty, true⟩ "main.gbs" countSource = some site ∧
      site.WellTyped := by
  have found : ((Site.ofEntry? ⟨.empty, true⟩ "main.gbs" countSource).any fun site =>
      site.program.imports.isEmpty && site.modules.isEmpty &&
        definesCount site.program.definitions) = true := by decide +kernel
  obtain ⟨⟨⟨imports, defns⟩, mods⟩, accepted, shape⟩ := (Option.any_eq_true _ _).mp found
  simp only [Bool.and_eq_true, List.isEmpty_iff] at shape
  obtain ⟨⟨rfl, rfl⟩, defines⟩ := shape
  refine ⟨_, accepted, ?_⟩
  unfold definesCount at defines
  split at defines
  · -- all variables are integers, and no routine has a result
    refine ⟨fun _ _ types => types = ⟨fun _ => some .int, []⟩, ⟨_, rfl⟩, ?_⟩
    rintro here (rfl | ⟨src, ⟨⟩⟩)
    rintro defn mem _ rfl
    rcases List.mem_pair.mp mem with rfl | rfl
    · refine ⟨.cons (.repeatWith ?_ (.literal (.refl _) rfl) (.variableRef rfl)
        (.cons .skip .nil) (by rintro _ ⟨⟩)) .nil, fun _ => rfl⟩
      rintro _ ⟨⟩
      rfl
    · refine ⟨.cons (.procedureCall (.cons (.literal (.refl _) rfl) .nil)
        (.routine rfl rfl (.cons ?_ .nil))) .nil, fun _ => rfl⟩
      rintro _ ⟨⟩
      exact .refl _
  · cases defines

end StoneBoard
