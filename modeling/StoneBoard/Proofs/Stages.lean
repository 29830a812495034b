import StoneBoard.Proofs.Diagnosis
import StoneBoard.Proofs.Safety
import StoneBoard.Run

/-!
# Stages of a run

A run gets as far as the first stage that fails.  What is wrong with a text shows while it is
read or checked; a program that has passed the checks is compiled and started, and whatever
goes wrong from then on is a fault of the run.
-/

namespace StoneBoard

variable {more : Nat}

theorem Cause.errorClass_of_isExpected {cause : Cause} (expected : cause.isExpected = true) :
    cause.errorClass = .dynamic := by
  cases cause <;> first | rfl | cases expected

theorem CompiledModule.run_of_le {prog : CompiledModule} {limit budget : Nat} {scene : Scene}
    {outcome : Except Error Bindings × Scene}
    (ends : prog.run limit budget scene = some outcome) (enough : budget ≤ more) :
    prog.run limit more scene = some outcome := by
  unfold run at ends ⊢
  split
  next main isMain =>
    rw [isMain] at ends
    exact Machine.run_of_le ends enough
  next noMain => rwa [noMain] at ends

namespace Job

variable {job : Job} {budget : Nat}
variable {compiled : CompiledModule}

theorem explain_eq (job : Job) (error : Error) :
    ∃ line, job.explain error = { error with sourceLine := line } := by
  unfold explain
  split
  · exact error.withSource_eq job.source
  · exact ⟨error.sourceLine, rfl⟩

theorem cause_explain (job : Job) (error : Error) : (job.explain error).cause = error.cause := by
  obtain ⟨line, same⟩ := job.explain_eq error
  rw [same]

/-- How the preparation of a run ends, with the stages that have begun. -/
inductive Course (job : Job) : Except Error CompiledModule × List Stage → Prop
  | unreadable {error : Error} (found : error.FoundIn (Span.Within job.source)) :
      Course job (.error error, [.parsing])
  | unsound {error : Error} (found : error.FoundIn (Span.Within job.source)) :
      Course job (.error error, [.parsing, .checking])
  | started {site : Site} {compiled : CompiledModule}
      (accepted : Site.ofEntry? job.settings job.file job.source = some site)
      (loaded : Library.fresh (Library.loadEntry job.settings job.file job.source) = .ok compiled) :
      Course job (.ok compiled, Stage.all)

theorem course_prepare (job : Job) : job.Course ((job.prepare permitAll).run.run []) := by
  have unreadable := (Program.ofText_read job.source).1
  have unsound := Library.analyzeEntry_fails job.settings job.file job.source Library.empty trivial
  unfold prepare
  cases read : Program.ofText job.source with
  | error error =>
    exact .unreadable (((unreadable error read).inFile job.file).withSource job.source)
  | ok text =>
    rcases analyzed : (Library.analyzeEntry job.settings job.file job.source).run.run
      Library.empty with ⟨error | prog, lib⟩
    · rw [Library.result, Id.run, analyzed] at unsound
      exact .unsound unsound.1
    · have accepted : Site.ofEntry? job.settings job.file job.source =
          some ⟨prog, lib.analyzed⟩ := by
        unfold Site.ofEntry?
        rw [analyzed]
      obtain ⟨compiled, -, -, loaded, -⟩ := Site.compiled_of_ofEntry? accepted
      obtain ⟨last, compiles⟩ : ∃ last, (Library.compileEntry job.settings job.file job.source
          prog).run.run lib = (.ok compiled, last) := by
        have loads : Library.Loads (Library.loadEntry job.settings job.file job.source)
            Library.empty compiled _ := Prod.ext loaded rfl
        obtain ⟨_, _, analyzes, compiles⟩ := Library.loads_bind.mp loads
        cases analyzed.symm.trans analyzes
        exact ⟨_, compiles⟩
      simp only [attempt, pure_bind, compiles]
      exact .started accepted loaded

theorem dynamic_of_execute {site : Site}
    (accepted : Site.ofEntry? job.settings job.file job.source = some site)
    (loaded : Library.fresh (Library.loadEntry job.settings job.file job.source) = .ok compiled)
    {error : Error} (failed : job.execute budget compiled = .failed error) :
    error.cause.isExpected = true := by
  unfold execute at failed
  split at failed
  next => cases failed
  next fault after ran =>
    cases failed
    rw [cause_explain]
    exact (Site.conduct_of_run accepted loaded ran).1 fault rfl
  next => cases failed

theorem saved_of_run {result : Bindings} {scene : Scene}
    (completed : (job.run permitAll budget).2 = .completed result scene) :
    scene.board.saved = job.board.saved := by
  unfold run at completed
  have course := job.course_prepare
  generalize (job.prepare permitAll).run.run [] = prepared at completed course
  cases course with
  | unreadable => cases completed
  | unsound => cases completed
  | started accepted loaded =>
    dsimp only at completed
    unfold execute at completed
    split at completed
    next ran =>
      cases completed
      exact ((Site.conduct_of_run accepted loaded ran).2 _ rfl).saved
    next => cases completed
    next => cases completed

theorem execute_of_le (enough : budget ≤ more) (ends : job.execute budget compiled ≠ .unfinished) :
    job.execute more compiled = job.execute budget compiled := by
  unfold execute at ends ⊢
  cases ran : compiled.run Machine.standardDepth budget (.ofBoard job.board) with
  | none =>
    rw [ran] at ends
    exact absurd rfl ends
  | some outcome => rw [CompiledModule.run_of_le ran enough]

theorem run_of_le (enough : budget ≤ more) (ends : (job.run permitAll budget).2 ≠ .unfinished) :
    job.run permitAll more = job.run permitAll budget := by
  unfold run at ends ⊢
  generalize (job.prepare permitAll).run.run [] = prepared at ends ⊢
  obtain ⟨error | compiled, stages⟩ := prepared
  · rfl
  · dsimp only at ends ⊢
    rw [execute_of_le enough ends]

end Job

end StoneBoard
