import Mathlib.Data.List.Find
import StoneBoard.Proofs.Interfaces
import StoneBoard.Proofs.Twins

/-!
# The order of definitions

Definitions may stand in any order as long as the main procedure is the last one: the checks
accept the program or refuse it in every order, and it runs in the same way.  The code differs in
the numbers of labels and hidden variables only, and no run ever tells them apart.
-/

namespace StoneBoard

open List

/-- Programs that import the same and have the same definitions, with the same one at the end. -/
structure Program.Reorders (program other : Program) : Prop where
  imports : other.imports = program.imports
  definitions : other.definitions.Perm program.definitions
  last : other.definitions.getLast? = program.definitions.getLast?

variable {prog other : Program}

namespace Program.Reorders

theorem symm (reorders : prog.Reorders other) : other.Reorders prog :=
  ⟨reorders.imports.symm, reorders.definitions.symm, reorders.last.symm⟩

theorem nodup (reorders : prog.Reorders other)
    (nodup : (prog.definitions.map Definition.name).Nodup) :
    (other.definitions.map Definition.name).Nodup :=
  (reorders.definitions.map _).nodup_iff.mpr nodup

theorem definition? (reorders : prog.Reorders other)
    (nodup : (prog.definitions.map Definition.name).Nodup) (name : String) :
    other.definition? name = prog.definition? name := by
  refine find?_eq_find?_of_perm reorders.definitions ?_
  rintro first ⟨mem, isFirst⟩ second ⟨secondMember, isSecond⟩
  exact inj_on_of_nodup_map (reorders.nodup nodup) mem secondMember
    ((beq_iff_eq.mp isFirst).trans (beq_iff_eq.mp isSecond).symm)

end Program.Reorders

/-! ## Checks -/

namespace Check

variable {imported : Interface}

/-- Definitions can be declared one after the other if each of them could be the first, and they
have different names. -/
theorem declares_iff {defns : List Definition} {before : Interface} :
    (∃ locals, defns.foldlM (declare imported) before = .ok locals) ↔
      (defns.map Definition.name).Nodup ∧
        ∀ defn ∈ defns, ∃ locals, declare imported before defn = .ok locals := by
  induction defns generalizing before with
  | nil => simp
  | cons first rest ih =>
    have later (defn : Definition) :
        (∃ locals, declare imported ((first.name, first.info) :: before) defn = .ok locals) ↔
          defn.name ≠ first.name ∧
            ∃ locals, declare imported before defn = .ok locals := by
      by_cases same : defn.name = first.name <;>
        simp [declare, Table.contains, Table.get?_cons, same]
    have firstOnly : (∃ locals, (first :: rest).foldlM (declare imported) before = .ok locals) ↔
          (∃ locals, declare imported before first = .ok locals) ∧
            ∃ locals, rest.foldlM (declare imported) ((first.name, first.info) :: before) =
              .ok locals := by
      simp [foldlM_cons, declare, and_assoc]
    simp only [firstOnly, ih, later, map_cons, nodup_cons, forall_mem_cons]
    grind

theorem checkDefinitions_reorders (reorders : prog.Reorders other)
    (checked : checkDefinitions true imported prog = .ok ()) :
    checkDefinitions true imported other = .ok () := by
  simp only [checkDefinitions, if_true, bind_eq_ok, exists_unit, require_eq_ok, forM_eq_ok]
    at checked ⊢
  obtain ⟨notEmpty, locals, declared, mainChecked, each⟩ := checked
  obtain ⟨nodup, first⟩ := declares_iff.mp ⟨locals, declared⟩
  obtain ⟨otherLocals, otherDeclared⟩ := declares_iff.mpr ⟨reorders.nodup nodup,
    fun defn mem => first defn (reorders.definitions.mem_iff.mp mem)⟩
  obtain ⟨-, -, known⟩ := declare_all declared
  obtain ⟨-, -, otherKnown⟩ := declare_all otherDeclared
  have within : Environment.Within ⟨locals, imported⟩ ⟨otherLocals, imported⟩ := by
    intro name shape isShape
    have same := reorders.definition? nodup name
    rw [Program.definition?, Program.definition?] at same
    rw [← isShape, Environment.shape?, Environment.shape?, Environment.lookup?,
      Environment.lookup?, known, otherKnown, same]
  refine ⟨?_, otherLocals, otherDeclared, ?_, fun defn mem => ?_⟩
  · rwa [reorders.definitions.isEmpty_eq]
  · rwa [checkMain, reorders.definition? nodup, reorders.last]
  · obtain ⟨_, again, -⟩ := (checkDefinition_tracks within defn).tracks ()
      (each defn (reorders.definitions.mem_iff.mp mem))
    exact again

end Check

/-! ## Runs -/

variable {site : Site} {home : CompiledModule} {others : Table Routine}

/-- A name means what it means in the module, unless it is that of a definition. -/
theorem SameDefinitions.exported? (same : SameDefinitions home.routines others)
    (own : ∀ name, Option.Rel Definition.CompilesTo (site.program.definition? name)
      (others.get? name)) (name : String) :
    (∃ defn routine, site.routine? name = some (site, defn) ∧
      CompiledModule.exported? { home with routines := others } name =
        some ({ home with routines := others }, routine) ∧ defn.CompilesTo routine) ∨
    CompiledModule.exported? { home with routines := others } name = home.exported? name := by
  have here := own name
  have there := same name
  rw [Site.routine?, CompiledModule.exported?, CompiledModule.exported?]
  dsimp only
  generalize site.program.definition? name = defn, home.routines.get? name = routine,
    others.get? name = other at here there
  cases here with
  | none =>
    cases there
    exact .inr rfl
  | @some defn other compiled => exact .inl ⟨defn, other, rfl, rfl, compiled⟩

theorem Site.LinkedTo.of_sameDefinitions (linked : site.LinkedTo home)
    (same : SameDefinitions home.routines others)
    (own : ∀ name, Option.Rel Definition.CompilesTo (site.program.definition? name)
      (others.get? name)) : site.LinkedTo { home with routines := others } := by
  obtain ⟨related, linking, isRelated⟩ := linked
  refine ⟨fun here compiled => related here compiled ∨
    here = site ∧ compiled = { home with routines := others }, ?_, .inr ⟨rfl, rfl⟩⟩
  constructor
  · rintro here compiled name other defn (here | ⟨rfl, rfl⟩) found
    · exact linking.regular here found
    · exact linking.regular isRelated found
  · rintro here compiled name other defn (here | ⟨rfl, rfl⟩) found
    · obtain ⟨otherHome, routine, exported, there, fromDefinition⟩ := linking.found here found
      exact ⟨otherHome, routine, exported, .inl there, fromDefinition⟩
    · rcases same.exported? own name with ⟨_, routine, isOwn, exported, fromDefinition⟩ | linked
      · cases isOwn.symm.trans found
        exact ⟨_, routine, exported, .inr ⟨rfl, rfl⟩, fromDefinition⟩
      · obtain ⟨otherHome, routine, exported, there, fromDefinition⟩ :=
          linking.found isRelated found
        exact ⟨otherHome, routine, linked.trans exported, .inl there, fromDefinition⟩
  · rintro here compiled name (here | ⟨rfl, rfl⟩) absent
    · exact linking.absent here absent
    · rcases same.exported? own name with ⟨_, _, isOwn, -⟩ | linked
      · cases isOwn.symm.trans absent
      · exact linked.trans (linking.absent isRelated absent)
  · rintro here compiled name (here | ⟨rfl, rfl⟩) isBuiltin
    · exact linking.reserved here isBuiltin
    · exact linking.reserved isRelated isBuiltin

/-- A program runs in the same way with other code of the same definitions. -/
theorem Site.run_of_sameDefinitions {main : Definition} {routine : Routine}
    (found : site.program.definition? "Main" = some main) (isMain : main.isMain = true)
    (isRoutine : home.routines.get? "Main" = some routine)
    (realizes : Realizes site main home routine) (same : SameDefinitions home.routines others)
    (own : ∀ name, Option.Rel Definition.CompilesTo (site.program.definition? name)
      (others.get? name)) (limit budget : Nat) (scene : Scene) :
    CompiledModule.run { home with routines := others } limit budget scene =
      home.run limit budget scene := by
  obtain ⟨otherRoutine, isOther, fromMain⟩ : ∃ other, others.get? "Main" = some other ∧
      main.CompilesTo other := by
    have here := own "Main"
    rw [found] at here
    generalize others.get? "Main" = other at here ⊢
    cases here with
    | some compiled => exact ⟨_, rfl, compiled⟩
  obtain ⟨defn, lines, lead, otherLead, twins⟩ : ∃ defn lines lead otherLead,
      routine.Twins defn lines lead otherLead otherRoutine := by
    have there := same "Main"
    rw [isRoutine, isOther] at there
    cases there with
    | some twins => exact twins
  have realizesToo : Realizes site main { home with routines := others } otherRoutine :=
    ⟨realizes.linked.of_sameDefinitions same own, realizes.regular, realizes.named, fromMain⟩
  have started : home.run limit budget scene =
      (Machine.start home routine scene).run limit budget := by
    rw [CompiledModule.run, isRoutine]
  have startedToo : CompiledModule.run { home with routines := others } limit budget scene =
      (Machine.start { home with routines := others } otherRoutine scene).run limit budget := by
    rw [CompiledModule.run, isOther]
  have machines : (twinning home others).Machines (Machine.start home routine scene)
      (Machine.start { home with routines := others } otherRoutine scene) :=
    ⟨.own twins 0 [] _, .nil, rfl, rfl, rfl⟩
  rcases Machine.run_twinning same limit budget machines with sameEnd |
    ⟨error, name, other, after, fails, failsToo⟩
  · rw [started, startedToo, sameEnd]
  · -- the evaluation of the program knows one name only
    obtain ⟨fuel, evaluated⟩ := (run_iff_outcome? found isMain isOther realizesToo limit scene
      (.error (.uninitializedVariable other), after)).mp
        ⟨budget, by rw [startedToo, failsToo]; rfl⟩
    obtain ⟨more, ends⟩ := (run_iff_outcome? found isMain isRoutine realizes limit scene _).mpr
      ⟨fuel, evaluated⟩
    obtain ⟨outcome, isOutcome, ending⟩ := Option.map_eq_some_iff.mp ends
    rw [CompiledModule.run, isRoutine] at isOutcome
    cases Machine.run_unique fails isOutcome
    cases ending
    rw [started, startedToo, fails, failsToo]

/-! ## Programs -/

/-- Code of the same definitions, whose names are identifiers, differs in its numbers only. -/
theorem sameDefinitions_of_compilesTo {shapes : String → Option Shape} {routines : Table Routine}
    (each : ∀ defn ∈ prog.definitions, defn.Regular shapes ∧ defn.Named ∧
      ∀ param ∈ defn.parameters, IsIdentifier param)
    (own : ∀ name, Option.Rel Definition.CompilesTo (prog.definition? name) (routines.get? name))
    (ownToo : ∀ name, Option.Rel Definition.CompilesTo (prog.definition? name)
      (others.get? name)) : SameDefinitions routines others := by
  intro name
  have here := own name
  have there := ownToo name
  cases found : prog.definition? name with
  | none =>
    rw [found] at here there
    generalize routines.get? name = routine, others.get? name = other at here there ⊢
    cases here
    cases there
    exact .none
  | some defn =>
    obtain ⟨regular, named, params⟩ := each defn (mem_of_find?_eq_some found)
    obtain ⟨lines, labels, isCode⟩ := Definition.CompilesTo.template regular named
    rw [found] at here there
    generalize routines.get? name = routine, others.get? name = other at here there ⊢
    cases here with
    | some compiled =>
      cases there with
      | some compiledToo =>
        obtain ⟨lead, first⟩ := isCode _ compiled
        obtain ⟨otherLead, second⟩ := isCode _ compiledToo
        exact .some ⟨defn, lines, lead, otherLead, first, second, labels, params⟩

namespace Library

def loadProgram (settings : Settings) (file source : String) (program : Program) :
    Loading CompiledModule := do
  let (analyzed, _) ← analyzeProgram settings true (interface settings [Path.moduleName file])
    program
  compileEntry settings file source analyzed

section Loading

variable {catalogue : Catalogue} {file : String} {imported : Interface}
variable {before between after : Library}

theorem loads_of_checked
    (imports : Loads (importAll (interface ⟨catalogue, false⟩ [Path.moduleName file]) prog)
      before imported between) (checked : Check.checkDefinitions true imported prog = .ok ()) :
    Loads (analyzeProgram ⟨catalogue, false⟩ true
      (interface ⟨catalogue, false⟩ [Path.moduleName file]) prog) before
      (prog, exports imported [] prog) between :=
  loads_analyzeProgram.mpr ⟨imported, imports, bind_eq_ok.mpr ⟨(), checked, rfl⟩⟩

theorem loads_loadProgram {links : Table (CompiledModule × Routine)}
    (imports : Loads (importAll (interface ⟨catalogue, false⟩ [Path.moduleName file]) prog)
      before imported between) (checked : Check.checkDefinitions true imported prog = .ok ())
    (linked : Loads (linkAll (compiledModule ⟨catalogue, false⟩) prog) between links after)
    (compiled : Compilation.compileModule "" file links prog = .ok home) (src : String) :
    Loads (loadProgram ⟨catalogue, false⟩ file src prog) before home after := by
  simp only [loadProgram, compileEntry, loads_bind, loads_rethrow, loads_lift]
  exact ⟨_, between, loads_of_checked imports checked, links, after, linked, compiled, rfl⟩

/-- A program that is accepted is loaded in every order, and it runs in the same way. -/
theorem loadProgram_reorders (src : String) (named : ∀ defn ∈ prog.definitions, defn.Named ∧
      ∀ param ∈ defn.parameters, IsIdentifier param) (reorders : prog.Reorders other)
    (imports : Loads (importAll (interface ⟨catalogue, false⟩ [Path.moduleName file]) prog)
      empty imported between) (checked : Check.checkDefinitions true imported prog = .ok ()) :
    ∃ first second, fresh (loadProgram ⟨catalogue, false⟩ file src prog) = .ok first ∧
      fresh (loadProgram ⟨catalogue, false⟩ file src other) = .ok second ∧
      ∀ limit budget scene, second.run limit budget scene = first.run limit budget scene := by
  obtain ⟨grows, lookups⟩ := lookup_of_loads (resolves_interface hereditary_true _)
    (loads_of_checked imports checked) trivial trivial
  obtain ⟨sound, -, hasMain⟩ := sound_of_lookup (lookups empty)
    (fun defn mem => (named defn mem).1) grows.sound
  obtain ⟨main, found, isMain⟩ := hasMain rfl
  have proper : between.Proper :=
    ⟨grows.sound, fun _ _ isKept => by rw [grows.compiled] at isKept; cases isKept⟩
  obtain ⟨links, first, after, linked, compiled, -, -, -, built⟩ :=
    proper.builtAs sound suffix_rfl ⟨catalogue, false⟩ file
  obtain ⟨others, compiledOthers⟩ := Compilation.compileDefinitions_succeeds
    (fun defn mem =>
      (sound.regular defn (reorders.definitions.mem_iff.mp mem)).1) .start []
  have compiledToo : Compilation.compileModule "" file links other =
      .ok { first with routines := others } := by
    obtain ⟨routines, -, isFirst⟩ := bind_eq_ok.mp compiled
    cases pure_eq_ok.mp isFirst
    exact bind_eq_ok.mpr ⟨others, compiledOthers, rfl⟩
  have loads := loads_loadProgram imports checked linked compiled src
  have loadsToo := loads_loadProgram (by rwa [importAll, reorders.imports])
    (Check.checkDefinitions_reorders reorders checked) (by rwa [linkAll, reorders.imports])
    compiledToo src
  have own := Compilation.routine_of_compileModule compiled sound.nodup
  have ownToo : ∀ name, Option.Rel Definition.CompilesTo (prog.definition? name)
      (others.get? name) := by
    intro name
    rw [← reorders.definition? sound.nodup]
    exact Compilation.routine_of_compileModule compiledToo (reorders.nodup sound.nodup) name
  have same := sameDefinitions_of_compilesTo
    (fun defn mem => ⟨(sound.regular defn mem).1, named defn mem⟩)
    own ownToo
  obtain ⟨routine, isRoutine, fromMain⟩ : ∃ routine, first.routines.get? "Main" = some routine ∧
      main.CompilesTo routine := by
    have here := own "Main"
    rw [found] at here
    generalize first.routines.get? "Main" = routine at here ⊢
    cases here with
    | some compiled => exact ⟨_, rfl, compiled⟩
  refine ⟨first, _, congrArg Prod.fst loads, congrArg Prod.fst loadsToo, ?_⟩
  exact Site.run_of_sameDefinitions found isMain isRoutine
    (built.realizes sound grows.sound (mem_of_find?_eq_some found) fromMain) same ownToo

end Loading

/-- Definitions with names that can be read may stand in any order before the last one.  The
checks accept a first program in all orders or in none; and a program that is accepted is compiled
in every order, and comes to the same bindings or the same error, board and log, from every board
and with every depth of calls. -/
theorem reordered_definitions_run_alike (program other : Program)
    (named : ∀ definition ∈ program.definitions, definition.Named ∧
      ∀ parameter ∈ definition.parameters, IsIdentifier parameter)
    (reorders : program.Reorders other) :
    (∀ imported, Check.checkDefinitions true imported other = .ok () ↔
      Check.checkDefinitions true imported program = .ok ()) ∧
    ∀ (catalogue : Catalogue) (file source : String) (analyzed : Program × Interface),
      fresh (analyzeProgram ⟨catalogue, false⟩ true
        (interface ⟨catalogue, false⟩ [Path.moduleName file]) program) = .ok analyzed →
      ∃ first second, fresh (loadProgram ⟨catalogue, false⟩ file source program) = .ok first ∧
        fresh (loadProgram ⟨catalogue, false⟩ file source other) = .ok second ∧
        ∀ maxDepth budget scene,
          second.run maxDepth budget scene = first.run maxDepth budget scene := by
  refine ⟨fun imported => ⟨Check.checkDefinitions_reorders reorders.symm,
    Check.checkDefinitions_reorders reorders⟩, fun catalogue file source analyzed accepted => ?_⟩
  have loads : Loads (analyzeProgram _ true _ program) empty analyzed _ := Prod.ext accepted rfl
  obtain ⟨imported, imports, concluded⟩ := loads_analyzeProgram.mp loads
  exact loadProgram_reorders source named reorders imports (conclude_eq_ok concluded).1

def twoLoops : String :=
  "procedure First() \x7b repeatWith i in 1..2 \x7b PutStone(Red) Second(i) \x7d \x7d
   procedure Second(n) \x7b repeatWith j in 1..n \x7b PutStone(Blue) \x7d \x7d
   procedure Main() \x7b First() x := numStones(Blue) return (x) \x7d"

theorem reordered_loops_run_alike : ∃ program other first second,
    Program.ofText twoLoops = .ok program ∧
      other.definitions.map Definition.name = ["Second", "First", "Main"] ∧
      program.Reorders other ∧
      fresh (loadProgram ⟨.empty, false⟩ "main.gbs" twoLoops program) = .ok first ∧
      fresh (loadProgram ⟨.empty, false⟩ "main.gbs" twoLoops other) = .ok second ∧
      ∀ maxDepth budget scene,
        second.run maxDepth budget scene = first.run maxDepth budget scene := by
  have readable : (do
      let program ← (Program.ofText twoLoops).toOption
      let _ ← (fresh (analyzeProgram ⟨.empty, false⟩ true
        (interface ⟨.empty, false⟩ [Path.moduleName "main.gbs"]) program)).toOption
      return program.definitions.map Definition.name) = some ["First", "Second", "Main"] := by
    decide +kernel
  cases read : Program.ofText twoLoops with
  | error error =>
    rw [read] at readable
    cases readable
  | ok program =>
    rw [read] at readable
    have asRead := ((Program.ofText_read twoLoops).2 program read).definitions
    cases accepted : fresh (analyzeProgram ⟨.empty, false⟩ true
        (interface ⟨.empty, false⟩ [Path.moduleName "main.gbs"]) program) with
    | error error =>
      simp only [accepted, Except.toOption, Option.bind_eq_bind, Option.bind_some, Option.bind_none]
        at readable
      cases readable
    | ok analyzed =>
      simp only [accepted, Except.toOption, Option.bind_eq_bind, Option.bind_some,
        Option.pure_def, Option.some.injEq] at readable
      obtain ⟨imports, definitions⟩ := program
      obtain ⟨first, second, last, rfl⟩ :=
        List.length_eq_three.mp ((List.length_map _).symm.trans (congrArg List.length readable))
      have reorders : Program.Reorders ⟨imports, [first, second, last]⟩
          ⟨imports, [second, first, last]⟩ := ⟨rfl, .swap _ _ _, rfl⟩
      obtain ⟨one, two, loaded, loadedToo, alike⟩ := (reordered_definitions_run_alike _ _
        (fun definition member =>
          ⟨(asRead definition member).named, (asRead definition member).parameters⟩)
        reorders).2 .empty "main.gbs" twoLoops analyzed accepted
      simp only [List.map_cons, List.map_nil, List.cons.injEq] at readable
      obtain ⟨isFirst, isSecond, isLast, -⟩ := readable
      refine ⟨_, ⟨imports, [second, first, last]⟩, one, two, rfl, ?_, reorders, loaded, loadedToo,
        alike⟩
      rw [List.map_cons, List.map_cons, List.map_cons, isFirst, isSecond, isLast, List.map_nil]

end Library

end StoneBoard
