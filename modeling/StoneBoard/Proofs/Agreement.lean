import StoneBoard.Proofs.Linking
import StoneBoard.Proofs.RoutineCode

/-!
# Compiled programs agree with evaluation

A program that is accepted can be compiled, and the machine comes to the same end with the
code as evaluation does with the program: the same result, or a failure for the same cause,
with the same board and log; and one goes on forever if the other one does.
-/

namespace StoneBoard

namespace Machine

variable {budget more : Nat}

/-! ## Runs -/

def ending (outcome : Except Error Bindings × Scene) : Except Cause Bindings × Scene :=
  (outcome.1.mapError Error.cause, outcome.2)

variable {limit floor : Nat} {machine last : Machine}

theorem run_of_le {outcome : Except Error Bindings × Scene}
    (ends : machine.run limit budget = some outcome) (enough : budget ≤ more) :
    machine.run limit more = some outcome := by
  induction budget generalizing machine more with
  | zero => cases ends
  | succ budget ih =>
    obtain ⟨rest, rfl⟩ := Nat.exists_eq_add_of_le' enough
    rw [Nat.add_succ, run]
    rw [run] at ends
    split
    next next stepped =>
      rw [stepped] at ends
      exact ih ends (Nat.le_add_left _ _)
    next stepped => rwa [stepped] at ends
    next stepped => rwa [stepped] at ends

theorem run_unique {first second : Except Error Bindings × Scene}
    (ends : machine.run limit budget = some first)
    (endsToo : machine.run limit more = some second) : first = second := by
  have early := run_of_le ends (Nat.le_max_left budget more)
  have late := run_of_le endsToo (Nat.le_max_right budget more)
  exact Option.some.inj (early.symm.trans late)

theorem Steps.run_add {count : Nat} (steps : Steps limit floor count machine last)
    (budget : Nat) : machine.run limit (count + budget) = last.run limit budget := by
  induction steps with
  | refl => rw [Nat.zero_add]
  | head _ stepped _ ih =>
    rw [Nat.add_right_comm, run, stepped]
    exact ih

/-- A machine that follows an evaluation ends as it does, and has not ended when the fuel of
the evaluation does not last. -/
theorem Follows.run {fuel : Nat} {eval : Evaluation Bindings}
    (follows : Follows limit floor fuel machine eval
      fun result last => last.step limit = .done result last.scene) :
    match eval.run.run machine.scene with
    | none => machine.run limit fuel = none
    | some outcome => ∃ budget, (machine.run limit budget).map ending = some outcome := by
  unfold Follows at follows
  split at follows
  next exhausted =>
    obtain ⟨last, steps⟩ := follows
    rw [exhausted]
    exact steps.run_add 0
  next result scene finished =>
    obtain ⟨count, last, steps, rfl, done⟩ := follows
    rw [finished]
    refine ⟨count + 1, ?_⟩
    rw [steps.run_add, Machine.run, done]
    rfl
  next cause scene failed =>
    obtain ⟨count, last, error, steps, -, fails, rfl⟩ := follows
    rw [failed]
    refine ⟨count + 1, ?_⟩
    rw [steps.run_add, Machine.run, fails]
    rfl

end Machine

/-! ## Programs -/

theorem Site.run_iff_outcome? {site : Site} {main : Definition} {home : CompiledModule}
    {routine : Routine} (found : site.program.definition? "Main" = some main)
    (isMain : main.isMain = true) (isRoutine : home.routines.get? "Main" = some routine)
    (realizes : Realizes site main home routine) (limit : Nat) (scene : Scene)
    (outcome : Except Cause Bindings × Scene) :
    (∃ budget, (home.run limit budget scene).map Machine.ending = some outcome) ↔
      ∃ fuel, site.outcome? limit fuel scene = some outcome := by
  have follows fuel := (follows_start limit fuel scene found isMain realizes).run
  have started budget : home.run limit budget scene =
      (Machine.start home routine scene).run limit budget := by
    rw [CompiledModule.run, isRoutine]
  simp only [started]
  constructor
  · rintro ⟨budget, ends⟩
    obtain ⟨result, isOver, rfl⟩ := Option.map_eq_some_iff.mp ends
    refine ⟨budget, ?_⟩
    have agrees := follows budget
    -- with as much fuel as there were steps, evaluation cannot run out of it
    split at agrees
    next exhausted =>
      rw [Machine.run_of_le isOver (Nat.le_succ _)] at agrees
      cases agrees
    next other finished =>
      obtain ⟨more, endsToo⟩ := agrees
      obtain ⟨result', isOverToo, rfl⟩ := Option.map_eq_some_iff.mp endsToo
      rw [Machine.run_unique isOver isOverToo]
      exact finished
  · rintro ⟨fuel, finished⟩
    have agrees := follows fuel
    rw [show (site.evaluate limit fuel).run.run (Machine.start home routine scene).scene =
      some outcome from finished] at agrees
    exact agrees

/-- A program that is accepted is compiled, and on every board, with every limit on calls,
the machine ends with a result or an error if and only if evaluation does, and it goes on
forever if and only if evaluation does. -/
theorem compiled_program_agrees_with_evaluation {settings : Library.Settings}
    {file source : String} {site : Site}
    (accepted : Site.ofEntry? settings file source = some site) :
    ∃ compiled, Library.fresh (Library.loadEntry settings file source) = .ok compiled ∧
      ∀ maxDepth scene,
        (∀ outcome,
          (∃ budget, (compiled.run maxDepth budget scene).map Machine.ending = some outcome) ↔
            ∃ fuel, site.outcome? maxDepth fuel scene = some outcome) ∧
        ((∀ budget, compiled.run maxDepth budget scene = none) ↔
          ∀ fuel, site.outcome? maxDepth fuel scene = none) := by
  obtain ⟨home, main, routine, compiled, -, found, isMain, isRoutine, realizes⟩ :=
    Site.compiled_of_ofEntry? accepted
  refine ⟨home, compiled, fun maxDepth scene => ?_⟩
  have agrees := Site.run_iff_outcome? found isMain isRoutine realizes maxDepth scene
  refine ⟨agrees, fun forever fuel => ?_, fun forever budget => ?_⟩
  · cases finished : site.outcome? maxDepth fuel scene with
    | none => rfl
    | some outcome =>
      obtain ⟨budget, isOver⟩ := (agrees outcome).mpr ⟨fuel, finished⟩
      rw [forever budget] at isOver
      cases isOver
  · cases isOver : home.run maxDepth budget scene with
    | none => rfl
    | some outcome =>
      obtain ⟨fuel, finished⟩ := (agrees (Machine.ending outcome)).mp ⟨budget, by rw [isOver]; rfl⟩
      rw [forever fuel] at finished
      cases finished

def walkSettings : Library.Settings where
  catalogue := Catalogue.empty.addText "Walk"
    "function east(n) \x7b
      repeatWith i in 1..n \x7b PutStone(Red) Move(East) \x7d
      return (n, next(n))
    \x7d"
  typecheck := true

def walkSource : String :=
  "from Walk import (east)
   procedure Main() \x7b
     PutStone(Blue)
     (a, b) := east(2)
     return (a, b)
   \x7d"

theorem walk_accepted : ∃ site, Site.ofEntry? walkSettings "main.gbs" walkSource = some site :=
  Option.isSome_iff_exists.mp (by decide +kernel)

theorem walk_agrees_with_evaluation :
    ∃ site, Site.ofEntry? walkSettings "main.gbs" walkSource = some site ∧
      ∃ compiled, Library.fresh (Library.loadEntry walkSettings "main.gbs" walkSource) =
          .ok compiled ∧
        ∀ maxDepth scene,
          (∀ outcome,
            (∃ budget, (compiled.run maxDepth budget scene).map Machine.ending = some outcome) ↔
              ∃ fuel, site.outcome? maxDepth fuel scene = some outcome) ∧
          ((∀ budget, compiled.run maxDepth budget scene = none) ↔
            ∀ fuel, site.outcome? maxDepth fuel scene = none) := by
  obtain ⟨site, accepted⟩ := walk_accepted
  exact ⟨site, accepted, compiled_program_agrees_with_evaluation accepted⟩

end StoneBoard
