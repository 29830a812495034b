import StoneBoard.Proofs.Agreement
import StoneBoard.Proofs.Conduct

/-!
# Accepted programs do not go wrong

A run of a program that has passed all checks may fail for what its arguments, its board or
its own commands are to blame for.  It never fails because a stack is too low, a label or a
routine is missing, a routine does not return, or a number of arguments is wrong.
-/

namespace StoneBoard

/-- A program that passes the analysis comes with the modules that it uses. -/
theorem Site.ofEntry?_iff_analyzeEntry {opts : Library.Settings} {file src : String}
    {prog : Program} : (∃ mods, ofEntry? opts file src = some ⟨prog, mods⟩) ↔
      Library.fresh (Library.analyzeEntry opts file src) = .ok prog := by
  unfold ofEntry? Library.fresh
  rcases (Library.analyzeEntry opts file src).run.run Library.empty with
    ⟨_ | analyzed, lib⟩ <;> simp

/-- A run of an accepted program fails for expected causes.  If it is completed, what had been saved
before is as it was. -/
theorem Site.conduct_of_run {opts : Library.Settings} {file src : String} {site : Site}
    {compiled : CompiledModule} (accepted : ofEntry? opts file src = some site)
    (loaded : Library.fresh (Library.loadEntry opts file src) = .ok compiled)
    {limit budget : Nat} {scene after : Scene} {outcome : Except Error Bindings}
    (ran : compiled.run limit budget scene = some (outcome, after)) :
    (∀ error, outcome = .error error → error.cause.isExpected = true) ∧
      (∀ result, outcome = .ok result → scene.Grows after) := by
  obtain ⟨home, main, routine, compiles, -, found, isMain, isRoutine, realizes⟩ :=
    Site.compiled_of_ofEntry? accepted
  obtain ⟨-, sound, modsSound, -⟩ := Site.sound_of_ofEntry? accepted
  cases loaded.symm.trans compiles
  have ends : (compiled.run limit budget scene).map Machine.ending =
      some (outcome.mapError Error.cause, after) := by
    rw [ran]
    rfl
  obtain ⟨fuel, evaluated⟩ :=
    (Site.run_iff_outcome? found isMain isRoutine realizes limit scene _).mp ⟨budget, ends⟩
  have behaves := Site.behaves_evaluate sound modsSound found limit fuel scene
  rw [Site.outcome?] at evaluated
  rw [evaluated] at behaves
  constructor
  · rintro error rfl
    exact behaves
  · rintro result rfl
    exact behaves.2

/-- A program that passes the analysis, with or without types, is compiled; and on every
board, with every limit on calls and after every number of steps, its runs only fail for
expected causes. -/
theorem accepted_program_fails_expectedly {settings : Library.Settings} {file source : String}
    {program : Program}
    (analyzed : Library.fresh (Library.analyzeEntry settings file source) = .ok program) :
    ∃ compiled, Library.fresh (Library.loadEntry settings file source) = .ok compiled ∧
      ∀ maxDepth budget scene error after,
        compiled.run maxDepth budget scene = some (.error error, after) →
        error.cause.isExpected = true := by
  obtain ⟨modules, accepted⟩ := Site.ofEntry?_iff_analyzeEntry.mpr analyzed
  obtain ⟨home, main, routine, compiled, -, found, isMain, isRoutine, realizes⟩ :=
    Site.compiled_of_ofEntry? accepted
  obtain ⟨-, sound, modulesSound, -⟩ := Site.sound_of_ofEntry? accepted
  refine ⟨home, compiled, fun maxDepth budget scene error after failed => ?_⟩
  have ends : (home.run maxDepth budget scene).map Machine.ending =
      some (.error error.cause, after) := by
    rw [failed]
    rfl
  obtain ⟨fuel, evaluated⟩ :=
    (Site.run_iff_outcome? found isMain isRoutine realizes maxDepth scene _).mp ⟨budget, ends⟩
  have behaves := Site.behaves_evaluate sound modulesSound found maxDepth fuel scene
  rw [Site.outcome?] at evaluated
  rw [evaluated] at behaves
  exact behaves

/-- On a board that is too narrow for it, the walk fails inside of the function. -/
theorem narrow_walk_fails_expectedly :
    ∃ program compiled error after,
      Library.fresh (Library.analyzeEntry walkSettings "main.gbs" walkSource) = .ok program ∧
      Library.fresh (Library.loadEntry walkSettings "main.gbs" walkSource) = .ok compiled ∧
      compiled.run 2 50 (.ofBoard (.blank 2 1)) = some (.error error, after) ∧
      error.cause.isExpected = true := by
  obtain ⟨⟨program, modules⟩, accepted⟩ := walk_accepted
  have analyzed := Site.ofEntry?_iff_analyzeEntry.mp ⟨modules, accepted⟩
  obtain ⟨compiled, loaded, expected⟩ := accepted_program_fails_expectedly analyzed
  have ending : ((Library.fresh (Library.loadEntry walkSettings "main.gbs"
      walkSource)).toOption.bind fun compiled =>
        compiled.run 2 50 (.ofBoard (.blank 2 1))).map (·.1.isOk) = some false := by
    decide +kernel
  obtain ⟨⟨outcome, after⟩, ran, failed⟩ := Option.map_eq_some_iff.mp ending
  rw [loaded] at ran
  cases outcome with
  | ok _ => cases failed
  | error error =>
    exact ⟨program, compiled, error, after, analyzed, loaded, ran, expected 2 50 _ _ _ ran⟩

end StoneBoard
