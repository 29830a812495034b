import StoneBoard.Proofs.Diagnosis
import StoneBoard.Proofs.Lines
import StoneBoard.Proofs.Linking

/-!
# Where code comes from

Every line of a compiled routine stands for a place in the text of its definition.  The first
program has no qualifier, and every module that its code can get to has one; so a routine whose
module has no qualifier belongs to the first program.
-/

namespace StoneBoard

variable {name file : String} {home : CompiledModule}
variable {opts : Settings}

/-! ## Lines and places -/

theorem Stmt.AsReadAll.dropLast {places : Span → Prop} {body : List Stmt}
    (asRead : AsReadAll places body) : AsReadAll places body.dropLast := by
  induction body with
  | nil => trivial
  | cons first rest ih =>
    cases rest with
    | nil => trivial
    | cons second others => exact ⟨asRead.1, ih asRead.2⟩

namespace Compilation

section Places

variable {places : Span → Prop}
variable {counters : Counters}
variable {span : Span} {after : Counters} {defn : Definition} {routine : Routine}

theorem compileDefinition_within (asRead : defn.bare.AsRead places)
    (compiled : compileDefinition counters defn = .ok (routine, after)) :
    LinesWithin places routine.code.toList := by
  simp only [compileDefinition, bind_eq_ok, pure_eq_ok, Prod.exists, Prod.mk.injEq] at compiled
  obtain ⟨body, _, compiledBody, ending, _, compiledEnding, _, assembled, rfl, -⟩ := compiled
  have enter : LinesWithin places
      (if defn.kind = .function then [(Instruction.enter, defn.span)] else []) := by
    split
    · exact linesWithin_cons.mpr ⟨asRead.within, linesWithin_nil⟩
    · exact linesWithin_nil
  have bodyRead : Stmt.AsReadAll places (Stmt.bareAll (bodyBeforeReturn defn)) := by
    rw [← Definition.bodyBeforeReturn_bare, bodyBeforeReturn]
    split
    · exact asRead.body.dropLast
    · exact asRead.body
  have bodyWithin := (emits_block _ compiledBody).within places bodyRead
  obtain ⟨code, span, returns, rfl, -, -, -, reads⟩ := compileReturn_parts compiledEnding
  obtain ⟨within, codeWithin⟩ := reads places asRead
  have leave : LinesWithin places
      (if defn.kind = .function then [(Instruction.leave, span)] else []) := by
    split
    · exact linesWithin_cons.mpr ⟨within, linesWithin_nil⟩
    · exact linesWithin_nil
  rw [Routine.code_of_assemble assembled]
  simp [enter, bodyWithin, codeWithin, leave, within]

theorem compileDefinitions_within {routines all : Table Routine} {defns : List Definition}
    (asRead : ∀ defn ∈ defns, defn.bare.AsRead places)
    (before : ∀ name routine, routines.get? name = some routine →
      LinesWithin places routine.code.toList)
    (compiled : compileDefinitions counters routines defns = .ok all) :
    ∀ name routine, all.get? name = some routine → LinesWithin places routine.code.toList := by
  induction defns generalizing counters routines with
  | nil =>
    cases compiled
    exact before
  | cons first rest ih =>
    obtain ⟨firstRead, restRead⟩ := List.forall_mem_cons.mp asRead
    simp only [compileDefinitions, bind_eq_ok, Prod.exists] at compiled
    obtain ⟨routine, after, compiledFirst, compiledRest⟩ := compiled
    apply ih restRead _ compiledRest
    intro name known found
    rw [Table.get?_insert] at found
    split at found
    · cases found
      exact compileDefinition_within firstRead compiledFirst
    · exact before name known found

end Places

end Compilation

/-! ## Modules with a qualifier -/

theorem IsIdentifier.ne_empty (isIdentifier : IsIdentifier name) : name ≠ "" := by
  rintro rfl
  obtain ⟨first, rest, nonempty, -⟩ := isIdentifier
  cases nonempty

/-- A module that is not the first program, like all modules that its code can get to. -/
inductive CompiledModule.Foreign : CompiledModule → Prop
  | intro {home : CompiledModule} (qualified : home.qualifier ≠ "")
      (linked : ∀ name link, Table.get? home.links name = some link → link.1.Foreign) :
      Foreign home

namespace CompiledModule.Foreign

variable {home : CompiledModule}

theorem qualified (foreign : home.Foreign) : home.qualifier ≠ "" := by
  cases foreign with
  | intro qualified => exact qualified

theorem exported? (foreign : home.Foreign) {link : CompiledModule × Routine}
    (found : home.exported? name = some link) : link.1.Foreign := by
  unfold CompiledModule.exported? at found
  split at found
  · cases found
    exact foreign
  · cases foreign with
    | intro _ linked => exact linked name link found

end CompiledModule.Foreign

namespace Library

variable {prog : Program} {links : Table (CompiledModule × Routine)}
variable {qualifier : String}

theorem compileModule_eq_ok
    (compiled : Compilation.compileModule qualifier file links prog = .ok home) :
    ∃ routines, Compilation.compileDefinitions .start [] prog.definitions = .ok routines ∧
      home = ⟨qualifier, file, routines, links⟩ := by
  simp only [Compilation.compileModule, bind_eq_ok, pure_eq_ok] at compiled
  obtain ⟨routines, compiledAll, rfl⟩ := compiled
  exact ⟨routines, compiledAll, rfl⟩

def NamesImports (modules : List Analyzed) : Prop :=
  ∀ known ∈ modules, ∀ declaration ∈ known.program.imports, declaration.source ≠ ""

theorem hereditary_namesImports : Hereditary opts NamesImports := by
  intro mods known src prog _ named _ read loads
  obtain ⟨_, -, concluded⟩ := loads_analyzeProgram.mp (loads empty)
  obtain ⟨-, sameImports, -⟩ := checked_of_conclude concluded
  refine List.forall_mem_cons.mpr ⟨fun decl mem => ?_, named⟩
  rw [sameImports] at mem
  exact (((Program.ofText_read src).2 prog read).imports decl mem).source.ne_empty

theorem foreign_of_compileFrom {mods : List Analyzed} (sound : ModulesSound mods)
    (named : NamesImports mods) (isNamed : name ≠ "")
    (compiled : compileFrom mods name = .ok home) : home.Foreign := by
  induction mods generalizing name home with
  | nil => cases compiled
  | cons known older ih =>
    obtain ⟨-, here, -, olderSound⟩ := sound
    obtain ⟨knownNamed, olderNamed⟩ := List.forall_mem_cons.mp named
    rw [compileFrom] at compiled
    split at compiled
    next =>
      obtain ⟨links, linked, isHome⟩ := bind_eq_ok.mp compiled
      obtain ⟨routines, -, rfl⟩ := compileModule_eq_ok isHome
      obtain ⟨_, _, linkedToo, linkedBy, -⟩ := builtAs_of_sources here olderSound
        (fun _ _ => compileFrom_succeeds olderSound) name known.file
      cases linked.symm.trans linkedToo
      refine .intro isNamed fun name link isLink => ?_
      obtain ⟨decl, mem, src, isSource, exported⟩ := linkedBy.exported isLink
      exact (ih olderSound olderNamed (knownNamed decl mem) isSource).exported? exported
    next => exact ih olderSound olderNamed isNamed compiled

end Library

structure CompiledModule.IsEntry (source file : String) (home : CompiledModule) : Prop where
  file : home.file = file
  unqualified : home.qualifier = ""
  routines : ∀ name routine, home.routines.get? name = some routine →
    LinesWithin (Span.On source) routine.code.toList
  linked : ∀ name link, Table.get? home.links name = some link → link.1.Foreign

namespace Library

theorem asRead_of_analyzeEntry {src : String} {text extended : Program} {iface : Interface}
    {mods : List Analyzed} {before between : Library} (read : Program.ofText src = .ok text)
    (completed : Completed opts file text before extended between)
    (loads : Loads (analyzeProgram opts true (lookup mods) extended) empty
      (prog, iface) empty) : prog.bare.AsRead src := by
  have textRead := (Program.ofText_read src).2 text read
  have extendedRead : extended.AsRead src := by
    cases completed with
    | plain _ => exact textRead
    | enriched _ _ => exact withPrelude_asRead _ textRead
  obtain ⟨_, -, concluded⟩ := loads_analyzeProgram.mp loads
  obtain ⟨-, sameImports, keeps⟩ := checked_of_conclude concluded
  have sameBare : prog.bare = extended.bare := by
    rw [Program.bare, Program.bare, sameImports, keeps.bare_eq]
  rw [sameBare, extendedRead.bare_eq]
  exact extendedRead

theorem isEntry_of_loadEntry {src : String} (loaded : fresh (loadEntry opts file src) = .ok home) :
    home.IsEntry src file := by
  have loads : Loads (loadEntry opts file src) empty home _ := Prod.ext loaded rfl
  obtain ⟨prog, analyzed, analyzes, compiles⟩ := loads_bind.mp loads
  simp only [compileEntry, loads_rethrow, loads_bind, loads_lift] at compiles
  obtain ⟨links, _, linkedAll, compiled, -⟩ := compiles
  obtain ⟨-, -, sound, -⟩ := sound_of_analyzeEntry analyzes trivial
  obtain ⟨grows, _, _, _, read, ⟨_, completed⟩, lookups⟩ := lookup_of_analyzeEntry
    hereditary_namesImports analyzes trivial (List.forall_mem_nil _)
  have asRead := asRead_of_analyzeEntry read completed (lookups empty)
  have proper : analyzed.Proper :=
    ⟨grows.sound, fun _ _ isKept => by rw [grows.compiled] at isKept; cases isKept⟩
  obtain ⟨_, _, _, linkedToo, -, -, linkedBy, -⟩ := proper.builtAs sound List.suffix_rfl opts file
  cases linkedAll.symm.trans linkedToo
  obtain ⟨routines, compiledAll, rfl⟩ := compileModule_eq_ok compiled
  have within := Compilation.compileDefinitions_within (fun defn mem =>
    asRead.definitions defn.bare (List.mem_map_of_mem mem))
    (fun name routine found => by cases found) compiledAll
  refine ⟨rfl, rfl, within, fun name link isLink => ?_⟩
  obtain ⟨decl, mem, src, isSource, exported⟩ := linkedBy.exported isLink
  exact (foreign_of_compileFrom grows.sound grows.valid
    (asRead.imports decl mem).source.ne_empty isSource).exported? exported

end Library

end StoneBoard
