import StoneBoard.Proofs.Constancy
import StoneBoard.Proofs.Relinking
import StoneBoard.Proofs.Stages

/-!
# Errors of a run

All calls under way but the innermost one wait at a call of the routine above them, and the
outermost one is that of the main procedure.  So an error of a run tells what each of them is
executing, it lies in the first program, and the line of the text that it names is there.
-/

namespace StoneBoard

open Library List

variable {error : Error} {scene after : Scene} {limit budget : Nat}
variable {opts : Settings} {file src : String} {site : Site} {compiled : CompiledModule}

/-! ## Runs that fail -/

namespace Machine

variable {machine next first last : Machine}

theorem Steps.invariant {floor count : Nat} {good : Machine → Prop}
    (steps : Steps limit floor count first last)
    (kept : ∀ machine next, good machine → machine.step limit = .next next → good next)
    (start : good first) : good last := by
  induction steps with
  | refl => exact start
  | head _ stepped _ ih => exact ih (kept _ _ start stepped)

theorem steps_of_run (failed : machine.run limit budget = some (.error error, after)) :
    ∃ count last, Steps limit 0 count machine last ∧
      last.step limit = .fault error after := by
  induction budget generalizing machine with
  | zero => cases failed
  | succ budget ih =>
    rw [Machine.run] at failed
    split at failed
    next next stepped =>
      obtain ⟨count, last, steps, fails⟩ := ih failed
      exact ⟨count + 1, last, .head (Nat.zero_le _) stepped steps, fails⟩
    next => cases failed
    next fails =>
      cases failed
      exact ⟨0, machine, .refl machine, fails⟩

/-- A failure that is expected is that of an instruction. -/
theorem executes_of_fault (expected : error.cause.isExpected = true)
    (fails : machine.step limit = .fault error after) :
    (∃ line, machine.frame.routine.code[machine.frame.offset]? = some line) ∧
      error = machine.advance.error error.cause := by
  obtain ⟨cause, rfl, -⟩ := step_reports fails
  refine ⟨?_, rfl⟩
  cases found : machine.frame.routine.code[machine.frame.offset]? with
  | some line => exact ⟨line, rfl⟩
  | none =>
    simp only [step, found] at fails
    obtain rfl : Cause.internal _ = cause := congrArg Error.cause (Outcome.fault.inj fails).1
    cases expected

/-! ## Calls that wait -/

/-- Callers that wait for a routine, each with the line that has called, out to the first one of
all. -/
inductive Waiting (root : CompiledModule × Routine) :
    CompiledModule × Routine → List Frame → List Line → Prop
  | root : Waiting root root [] []
  | calls {callee : CompiledModule × Routine} {caller : Frame} {callers : List Frame}
      {lines : List Line} {name : String} {count place : Nat} {span : Span}
      (behind : caller.offset = place + 1)
      (executes : caller.routine.code[place]? = some (.call name count, span))
      (known : caller.home.exported? name = some callee)
      (rest : Waiting root (caller.home, caller.routine) callers lines) :
      Waiting root callee (caller :: callers) ((.call name count, span) :: lines)

/-- The lines that the calls under way execute, the innermost first. -/
inductive Executes (root : CompiledModule × Routine) (machine : Machine) : List Line → Prop
  | intro {line : Line} {lines : List Line}
      (next : machine.frame.routine.code[machine.frame.offset]? = some line)
      (waiting : Waiting root (machine.frame.home, machine.frame.routine) machine.callers lines) :
      Executes root machine (line :: lines)

variable {root callee : CompiledModule × Routine} {callers : List Frame} {lines : List Line}

theorem Waiting.step
    (waiting : Waiting root (machine.frame.home, machine.frame.routine) machine.callers lines)
    (stepped : machine.step limit = .next next) :
    ∃ others, Waiting root (next.frame.home, next.frame.routine) next.callers others := by
  obtain ⟨instr, span, found, does⟩ := does_of_step stepped
  cases does with
  | goes | records | saves | restores => exact ⟨lines, waiting⟩
  | calls _ _ isCall known =>
    subst isCall
    exact ⟨_, .calls rfl found known waiting⟩
  | returns _ _ isWaiting =>
    rw [isWaiting] at waiting
    cases waiting with
    | calls _ _ _ rest => exact ⟨_, rest⟩

def traceText (call : CompiledModule × Routine) (line : Line) : String :=
  s!"\n  {call.2.kind.name} {call.1.qualified call.2.name} at line {line.2.line}"

def variablesText (shown : Bindings) : String :=
  if shown.isEmpty then ""
  else "\nLocals:" ++ String.join (shown.map fun entry => s!"\n  {entry.1} = {entry.2.render}")

theorem Waiting.traceLines (waiting : Waiting root callee callers lines) :
    callers.map Frame.traceLine = List.zipWith traceText
      (callers.map fun frame => (frame.home, frame.routine)) lines := by
  induction waiting with
  | root => rfl
  | calls behind executes _ _ ih =>
    rw [map_cons, ih, Frame.traceLine, Frame.span?, behind, Nat.add_sub_cancel,
      Routine.spanAt?, executes]
    rfl

theorem Waiting.spans (waiting : Waiting root callee callers lines) :
    callers.map Frame.span? = lines.map fun line => some line.2 := by
  induction waiting with
  | root => rfl
  | calls behind executes _ _ ih =>
    rw [map_cons, map_cons, ih, Frame.span?, behind, Nat.add_sub_cancel, Routine.spanAt?, executes]
    rfl

theorem Waiting.getLast? (waiting : Waiting root callee callers lines) (line : Line) :
    ∃ last, (List.zipWith traceText (callee :: callers.map fun frame => (frame.home, frame.routine))
      (line :: lines)).getLast? = some (traceText root last) := by
  induction waiting generalizing line with
  | root => exact ⟨line, rfl⟩
  | calls _ _ _ _ ih => exact ih _

namespace Executes

variable {cause : Cause}

theorem length (executes : machine.Executes root lines) : lines.length = machine.frames.length := by
  obtain ⟨-, waiting⟩ := executes
  have sameLength := congrArg List.length waiting.spans
  simp only [length_map] at sameLength
  rw [frames, length_cons, length_cons, sameLength]

theorem spans (executes : machine.Executes root lines) :
    machine.advance.frames.map Frame.span? = lines.map fun line => some line.2 := by
  obtain ⟨next, waiting⟩ := executes
  have first : machine.advance.frame.span? = some _ := congrArg (Option.map Prod.snd) next
  rw [frames, map_cons, first, map_cons, ← waiting.spans]
  rfl

theorem traceLines (executes : machine.Executes root lines) :
    machine.advance.frames.map Frame.traceLine = List.zipWith traceText machine.calls lines := by
  obtain ⟨next, waiting⟩ := executes
  have first : machine.advance.frame.span? = some _ := congrArg (Option.map Prod.snd) next
  rw [frames, map_cons, Frame.traceLine, first]
  exact congrArg (_ :: ·) waiting.traceLines

theorem backtrace (executes : machine.Executes root lines) :
    machine.advance.backtrace = "At:" ++ String.join (List.zipWith traceText machine.calls lines) ++
      variablesText machine.frame.visibleVariables := by
  rw [Machine.backtrace, executes.traceLines]
  rfl

theorem blamed (executes : machine.Executes root lines) {entry : CompiledModule}
    (rooted : machine.Rooted entry) (isEntry : entry.IsEntry src file) :
    ∃ inner routine outer line, machine.calls = inner ++ (entry, routine) :: outer ∧
      (∀ call ∈ inner, call.1 ≠ entry) ∧ lines[inner.length]? = some line ∧
      machine.advance.blamedFrame.span? = some line.2 ∧
      machine.advance.blamedFrame.home = entry := by
  have advanced : machine.advance.Rooted entry := ⟨rooted.outermost, rooted.belongs⟩
  obtain ⟨isHome, -⟩ := advanced.blamedFrame isEntry
  obtain ⟨-, inner, outer, split, foreign⟩ :=
    List.find?_eq_some_iff_append.mp (advanced.find?_eq isEntry)
  have sameCalls : machine.calls =
      machine.advance.frames.map fun frame => (frame.home, frame.routine) := rfl
  have sameSpan := congrArg (·[inner.length]?) executes.spans
  simp only [split, getElem?_map, getElem?_append_right (Nat.le_refl _), Nat.sub_self,
    getElem?_cons_zero, Option.map_some] at sameSpan
  obtain ⟨line, isLine, isSpan⟩ := Option.map_eq_some_iff.mp sameSpan.symm
  refine ⟨inner.map fun frame => (frame.home, frame.routine), machine.advance.blamedFrame.routine,
    outer.map fun frame => (frame.home, frame.routine), line, ?_, ?_, ?_, isSpan.symm, isHome⟩
  · rw [sameCalls, split, map_append, map_cons, isHome]
  · intro call mem isOwn
    obtain ⟨frame, isInner, rfl⟩ := List.mem_map.mp mem
    have isOwn : frame.home = entry := isOwn
    have qualified := foreign frame isInner
    rw [isOwn, isEntry.unqualified] at qualified
    cases qualified
  · rwa [length_map]

end Executes

end Machine

/-! ## Variables -/

/-- The variables of a call, each with one value: those of the program, and hidden ones. -/
structure Bindings.Proper (locals : Bindings) : Prop where
  nodup : (locals.map Prod.fst).Nodup
  names : ∀ name value, Table.get? locals name = some value →
    IsIdentifier name ∨ ∃ own : Compilation.Counters, name = own.hiddenName

theorem Bindings.proper_insertAll {names : List String}
    (identifiers : ∀ name ∈ names, IsIdentifier name) (values : List Value) :
    Proper (Table.insertAll [] (names.zip values)) := by
  have nodup : (([] : Bindings).map Prod.fst).Nodup := nodup_nil
  refine ⟨Table.nodup_insertAll nodup _, fun name value found => .inl ?_⟩
  rw [Table.get?_insertAll, Table.get?_nil, Option.or_none] at found
  have mem := List.mem_reverse.mp (Table.mem_of_get? found)
  exact identifiers name (of_mem_zip mem).1

theorem Table.pairwise_sorted {α : Type} {table : Table α}
    (differ : (table.map Prod.fst).Nodup) :
    table.sorted.Pairwise fun first second => first.1 < second.1 := by
  have ordered : table.sorted.Pairwise fun first second => !(second.1 < first.1) := by
    refine pairwise_mergeSort (fun first second third below above => ?_)
      (fun first second => ?_) table
    · simp only [Bool.not_eq_true', decide_eq_false_iff_not, not_lt] at below above ⊢
      exact below.trans above
    · simp only [Bool.or_eq_true, Bool.not_eq_true', decide_eq_false_iff_not, not_lt]
      exact le_total first.1 second.1
  have distinct : table.sorted.Pairwise fun first second => first.1 ≠ second.1 :=
    List.pairwise_map.mp ((Table.perm_sorted table).nodup_iff.mpr differ)
  refine (ordered.and distinct).imp fun ⟨inOrder, differ⟩ => ?_
  simp only [Bool.not_eq_true', decide_eq_false_iff_not, not_lt] at inOrder
  exact lt_of_le_of_ne inOrder differ

namespace Bindings.Proper

variable {frame : Frame}

/-- What is shown of a call is exactly what the program calls its variables. -/
theorem mem_visibleVariables (proper : Proper frame.locals) {name : String} {value : Value} :
    (name, value) ∈ frame.visibleVariables ↔
      Table.get? frame.locals name = some value ∧ IsIdentifier name := by
  rw [Frame.visibleVariables, Table.sorted, mem_mergeSort, mem_filter, bne_iff_ne]
  constructor
  · rintro ⟨mem, visible⟩
    have found := Table.get?_of_mem proper.nodup mem
    rcases proper.names name value found with isIdentifier | ⟨own, rfl⟩
    · exact ⟨found, isIdentifier⟩
    · rw [Compilation.Counters.hiddenName_toList] at visible
      exact absurd rfl visible
  · rintro ⟨found, isIdentifier⟩
    exact ⟨Table.mem_of_get? found, isIdentifier.head?_ne⟩

theorem pairwise_visibleVariables (proper : Proper frame.locals) :
    frame.visibleVariables.Pairwise fun first second => first.1 < second.1 :=
  Table.pairwise_sorted (proper.nodup.sublist (List.filter_sublist.map Prod.fst))

end Bindings.Proper

namespace Machine

variable {machine next : Machine}

/-- The calls under way are to the code of a program, and have its variables. -/
structure Orderly (site : Site) (machine : Machine) : Prop where
  runs : ∀ call ∈ machine.calls, site.Runs call
  proper : ∀ frame ∈ machine.frames, frame.locals.Proper

theorem Orderly.step (orderly : machine.Orderly site)
    (accepted : Site.ofEntry? opts file src = some site)
    (stepped : machine.step limit = .next next) : next.Orderly site := by
  obtain ⟨-, sound, modsSound, -⟩ := Site.sound_of_ofEntry? accepted
  refine ⟨(step_moves stepped).calls (fun call name other known exported =>
    known.exported? sound modsSound exported) orderly.runs, ?_⟩
  have runs := orderly.runs _ mem_cons_self
  obtain ⟨defn, compiles, careful, named, -⟩ := runs.careful accepted
  obtain ⟨here, above⟩ := List.forall_mem_cons.mp orderly.proper
  obtain ⟨instr, span, found, does⟩ := does_of_step stepped
  cases does with
  | records | saves | restores => exact List.forall_mem_cons.mpr ⟨here, above⟩
  | goes _ _ _ others distinct =>
    refine List.forall_mem_cons.mpr ⟨⟨distinct here.nodup, fun name value isBound => ?_⟩, above⟩
    by_cases written : instr.written? = some name
    · have isLine : (instr, span) ∈ machine.frame.routine.code.toList :=
        mem_of_getElem? (Array.getElem?_toList.trans found)
      exact (compiles.writes careful named _ isLine name written).imp_left And.left
    · exact here.names name value ((others name written).symm.trans isBound)
  | calls args _ _ known =>
    obtain ⟨_, -, calleeCareful, -, sameParameters⟩ :=
      (runs.exported? sound modsSound known).careful accepted
    have identifiers := calleeCareful.identifiers
    rw [← sameParameters] at identifiers
    exact List.forall_mem_cons.mpr ⟨Bindings.proper_insertAll identifiers args,
      List.forall_mem_cons.mpr ⟨here, above⟩⟩
  | returns _ _ waiting =>
    rw [waiting] at above
    exact above

/-! ## What an error tells -/

/-- An error that comes up when a machine executes some lines tells the place of the innermost one
in the first program, then all calls under way with their lines, and then the variables of the
innermost call. -/
structure Locates (entry : CompiledModule) (main : Routine) (machine : Machine)
    (lines : List Line) (shown : Bindings) (error : Error) : Prop where
  executes : machine.Executes (entry, main) lines
  length : lines.length = machine.calls.length
  place : ∃ inner routine outer line, machine.calls = inner ++ (entry, routine) :: outer ∧
    (∀ call ∈ inner, call.1 ≠ entry) ∧ lines[inner.length]? = some line ∧
    error.span = some line.2
  backtrace : error.backtrace = some ("At:" ++
    String.join (List.zipWith traceText machine.calls lines) ++ variablesText shown)
  outermost : ∃ number : Nat, (List.zipWith traceText machine.calls lines).getLast? =
    some s!"\n  procedure Main at line {number}"
  sorted : shown.Pairwise fun first second => first.1 < second.1
  shown : ∀ name value, (name, value) ∈ shown ↔
    Table.get? machine.frame.locals name = some value ∧ IsIdentifier name
  hidden : ∀ name value, Table.get? machine.frame.locals name = some value →
    IsIdentifier name ∨ ∃ own : Compilation.Counters, name = own.hiddenName

theorem Executes.locates {entry : CompiledModule} {main : Routine} {lines : List Line}
    (executes : machine.Executes (entry, main) lines) (rooted : machine.Rooted entry)
    (isEntry : entry.IsEntry src file) (proper : machine.frame.locals.Proper)
    (isProcedure : main.kind = .procedure) (isNamed : main.name = "Main") (cause : Cause) :
    machine.Locates entry main lines machine.frame.visibleVariables
      (machine.advance.error cause) := by
  obtain ⟨inner, routine, outer, line, split, foreign, isLine, isSpan, -⟩ :=
    executes.blamed rooted isEntry
  refine ⟨executes, ?_, ⟨inner, routine, outer, line, split, foreign, isLine, isSpan⟩,
    congrArg some executes.backtrace, ?_, proper.pairwise_visibleVariables,
    fun _ _ => proper.mem_visibleVariables, proper.names⟩
  · rw [executes.length, calls, length_map]
  · obtain ⟨-, waiting⟩ := executes
    obtain ⟨last, isLast⟩ := waiting.getLast? _
    refine ⟨last.2.line, isLast.trans ?_⟩
    rw [traceText, isProcedure, isNamed, CompiledModule.qualified, isEntry.unqualified]
    rfl

end Machine

/-! ## Programs -/

theorem Site.accepted_of_loadEntry
    (loaded : fresh (loadEntry opts file src) = .ok compiled) :
    ∃ site, ofEntry? opts file src = some site := by
  have loads : Loads (loadEntry opts file src) empty compiled _ := Prod.ext loaded rfl
  obtain ⟨prog, analyzed, analyzes, -⟩ := loads_bind.mp loads
  refine ⟨⟨prog, analyzed.analyzed⟩, ?_⟩
  unfold ofEntry?
  rw [show (analyzeEntry opts file src).run.run empty = _ from analyzes]

/-- The code of the main procedure of an accepted program tells its name. -/
theorem Site.main_named (accepted : ofEntry? opts file src = some site) {main : Routine}
    (loaded : fresh (loadEntry opts file src) = .ok compiled)
    (isMain : compiled.routines.get? "Main" = some main) :
    main.kind = .procedure ∧ main.name = "Main" := by
  obtain ⟨_, defn, routine, loadedToo, -, found, isMainToo, isRoutine, realizes⟩ :=
    compiled_of_ofEntry? accepted
  cases loaded.symm.trans loadedToo
  cases isMain.symm.trans isRoutine
  have careful := careful_of_ofEntry? accepted (.inl rfl) defn (mem_of_find?_eq_some found)
  obtain ⟨_, _, _, -, -, -, sameKind⟩ := realizes.compiled.inner careful realizes.named
  obtain ⟨_, _, _, _, _, -, -, -, sameName, -⟩ := realizes.compiled.parts
  have named := find?_some found
  exact ⟨sameKind.trans (Definition.kind_of_isMain isMainToo),
    sameName.trans (by simpa using named)⟩

/-- A run of a first program that fails has come to a machine that the error tells of. -/
theorem CompiledModule.locates_of_run (loaded : fresh (loadEntry opts file src) = .ok compiled)
    (failed : compiled.run limit budget scene = some (.error error, after)) :
    ∃ main steps last lines shown, compiled.routines.get? "Main" = some main ∧
      Machine.Steps limit 0 steps (Machine.start compiled main scene) last ∧
      last.step limit = .fault error after ∧
      last.Locates compiled main lines shown error := by
  obtain ⟨site, accepted⟩ := Site.accepted_of_loadEntry loaded
  obtain ⟨_, main, loadedToo, isMain, expected⟩ := Site.failsAsExpected accepted
  cases loaded.symm.trans loadedToo
  obtain ⟨_, _, loadedAgain, isMainToo, -, runs⟩ := Site.runs_of_ofEntry? accepted
  cases loaded.symm.trans loadedAgain
  cases isMain.symm.trans isMainToo
  have isEntry := isEntry_of_loadEntry loaded
  obtain ⟨isProcedure, isNamed⟩ := Site.main_named accepted loaded isMain
  simp only [run, isMain] at failed
  obtain ⟨steps, last, reached, fails⟩ := Machine.steps_of_run failed
  have rooted : last.Rooted compiled := reached.invariant
    (fun _ _ rooted stepped => rooted.step isEntry stepped) (Machine.rooted_start isMain scene)
  have awaited : ∃ lines, Machine.Waiting (compiled, main) (last.frame.home, last.frame.routine)
      last.callers lines := by
    apply reached.invariant
    · rintro _ _ ⟨_, waiting⟩ stepped
      exact waiting.step stepped
    · exact ⟨[], .root⟩
  obtain ⟨lines, waiting⟩ := awaited
  have start : (Machine.start compiled main scene).Orderly site := by
    refine ⟨@runs limit 0 scene _ (.refl _), fun frame mem => ?_⟩
    cases List.mem_singleton.mp mem
    exact ⟨nodup_nil, fun _ _ isBound => by cases isBound⟩
  have orderly : last.Orderly site := reached.invariant
    (fun _ _ orderly stepped => orderly.step accepted stepped) start
  obtain ⟨⟨line, next⟩, isError⟩ :=
    Machine.executes_of_fault (expected limit scene budget error after failed) fails
  have executes : last.Executes (compiled, main) (line :: lines) := ⟨next, waiting⟩
  have locates := executes.locates rooted isEntry (orderly.proper _ mem_cons_self)
    isProcedure isNamed error.cause
  rw [← isError] at locates
  exact ⟨main, steps, last, _, _, isMain, reached, fails, locates⟩

theorem Error.withSource_of_on {span : Span} (isSpan : error.span = some span)
    (onSource : span.On src) :
    0 < span.line ∧ ∃ text, (Text.lines src)[span.line - 1]? = some text ∧
      error.withSource src = { error with sourceLine := some text } := by
  obtain ⟨line, inside, isLine⟩ := onSource.shown
  refine ⟨isLine ▸ Nat.succ_pos line, (Text.lines src)[line], ?_, ?_⟩
  · rw [isLine, Nat.add_sub_cancel, getElem?_eq_getElem inside]
  · simp only [withSource, isSpan, isLine, getElem?_eq_getElem inside]

/-- Whatever a run of a first program fails for is located in its file, at the line that the
innermost of its calls executes, with a backtrace of all calls; and whoever runs the program from
its text is shown the line. -/
theorem runtime_errors_located :
    (∀ (settings : Settings) (file source : String) (compiled : CompiledModule)
        (maxDepth budget : Nat) (scene after : Scene) (error : Error),
      fresh (loadEntry settings file source) = .ok compiled →
      compiled.run maxDepth budget scene = some (.error error, after) →
      error.file = some file ∧
      ∃ main steps last lines shown, compiled.routines.get? "Main" = some main ∧
        Machine.Steps maxDepth 0 steps (Machine.start compiled main scene) last ∧
        last.step maxDepth = .fault error after ∧
        last.Locates compiled main lines shown error) ∧
    ∀ (job : Job) (budget : Nat) (report : Error),
      job.run Job.permitAll budget = (Stage.all, .failed report) →
      ∃ compiled error after span text,
        fresh (loadEntry job.settings job.file job.source) = .ok compiled ∧
        compiled.run Machine.standardDepth budget (.ofBoard job.board) =
          some (.error error, after) ∧
        error.span = some span ∧ 0 < span.line ∧
        (Text.lines job.source)[span.line - 1]? = some text ∧
        report = { error with sourceLine := some text } := by
  constructor
  · intro settings file source compiled maxDepth budget scene after error loaded failed
    exact ⟨((isEntry_of_loadEntry loaded).blame failed).2.1,
      CompiledModule.locates_of_run loaded failed⟩
  · intro job budget report ran
    have course := job.course_prepare
    unfold Job.run at ran
    generalize (job.prepare Job.permitAll).run.run [] = prepared at ran course
    cases course with
    | unreadable | unsound => simp [Stage.all] at ran
    | started _ loaded =>
      obtain ⟨-, ended⟩ := Prod.mk.inj ran
      unfold Job.execute at ended
      split at ended
      next => cases ended
      next error after failed =>
        obtain ⟨_, _, _, _, _, -, -, -, locates⟩ := CompiledModule.locates_of_run loaded failed
        obtain ⟨_, _, _, line, -, -, -, isSpan⟩ := locates.place
        obtain ⟨within, isFile, -⟩ := (isEntry_of_loadEntry loaded).blame failed
        obtain ⟨positive, text, isText, explained⟩ :=
          Error.withSource_of_on isSpan (within _ isSpan)
        rw [Job.explain, if_pos isFile, explained] at ended
        exact ⟨_, error, after, line.2, text, loaded, failed, isSpan, positive, isText,
          (RunEnd.failed.inj ended).symm⟩
      next => cases ended

def RunEnd.error? : RunEnd → Option Error
  | failed error => some error
  | _ => none

def narrowWalk : Job where
  catalogue := walkSettings.catalogue
  file := "main.gbs"
  source := walkSource
  board := .blank 2 1
  typecheck := true

/-- The walk fails in the imported function, and the line of its call is shown. -/
theorem narrow_walk_located :
    ∃ report compiled error after main lines shown, ∃ last : Machine,
      narrowWalk.run Job.permitAll 50 = (Stage.all, .failed report) ∧
      report = { error with sourceLine := some "     (a, b) := east(2)" } ∧
      fresh (loadEntry walkSettings "main.gbs" walkSource) = .ok compiled ∧
      compiled.run Machine.standardDepth 50 (.ofBoard (.blank 2 1)) = some (.error error, after) ∧
      error.file = some "main.gbs" ∧ error.span.map Span.line = some 4 ∧
      last.Locates compiled main lines shown error := by
  have told : (narrowWalk.run Job.permitAll 50).1 = Stage.all ∧
      (narrowWalk.run Job.permitAll 50).2.error?.map (fun report =>
        (report.sourceLine, report.span.map Span.line)) =
          some (some "     (a, b) := east(2)", some 4) := by decide +kernel
  rcases ran : narrowWalk.run Job.permitAll 50 with ⟨stages, ending⟩
  rw [ran] at told
  obtain ⟨rfl, told⟩ := told
  cases ending with
  | completed | unfinished => cases told
  | failed report =>
    obtain ⟨compiled, error, after, span, text, loaded, failed, -, -, -, rfl⟩ :=
      runtime_errors_located.2 narrowWalk 50 report ran
    obtain ⟨isFile, main, steps, last, lines, shown, -, -, -, locates⟩ :=
      runtime_errors_located.1 _ _ _ compiled _ _ _ after error loaded failed
    simp only [RunEnd.error?, Option.map_some, Option.some.injEq, Prod.mk.injEq] at told
    obtain ⟨rfl, isLine⟩ := told
    exact ⟨_, compiled, error, after, main, lines, shown, last, rfl, rfl, loaded, failed, isFile,
      isLine, locates⟩

end StoneBoard
