import StoneBoard.Proofs.Frames
import StoneBoard.Proofs.History

/-!
# Where links lead

A link of a compiled program leads to the module that defines its name: the one that is found by
following import declarations from module to module.  The routine is what the interface told that
the importing program was checked against.  In a run, every call is under way in the module that
its routine belongs to, and so the names in the routine are those of this module.
-/

namespace StoneBoard

open List

variable {name file src : String} {routine : Routine} {links : Table (CompiledModule × Routine)}
  {prog : Program} {home : CompiledModule} {count : Nat}
variable {defn : Definition} {qualifier : String} {mods : List Analyzed} {known : Analyzed}
  {lib : Library} {first : CompiledModule}

/-! ## Code of routines that can be imported -/

/-- A routine is what users of a module are told about it. -/
structure RoutineInfo.Describes (info : RoutineInfo) (routine : Routine) : Prop where
  kind : routine.kind = info.kind
  arity : routine.parameters.length = info.arity
  results : ∃ span, routine.code.toList.getLast? = some (.returnValues info.returns.length, span)

theorem Compilation.getLast?_compileReturn {counters after : Counters} {ending : List Line}
    (notMain : defn.isMain = false) (compiled : compileReturn counters defn = .ok (ending, after)) :
    ∃ span, ending.getLast? = some (.returnValues defn.returned.length, span) := by
  unfold compileReturn at compiled
  rcases defn.finalReturn?_cases with ⟨span, types, isReturn⟩ | ⟨noReturn, isEmpty⟩
  · simp only [isReturn, notMain, Bool.false_eq_true, if_false] at compiled
    cases compiled
    exact ⟨span, by simp⟩
  · simp only [noReturn, notMain, Bool.false_eq_true, if_false] at compiled
    cases compiled
    exact ⟨defn.span, by simp [isEmpty]⟩

/-- The code of a definition is described by whatever has its shape and no results of
procedures. -/
theorem Definition.CompilesTo.describes (compiled : defn.CompilesTo routine)
    {shapes : String → Option Shape} (regular : defn.Regular shapes)
    (notMain : defn.isMain = false) {info : RoutineInfo}
    (shape : info.shape = defn.shape) (silent : info.kind = .procedure → info.returns = []) :
    info.Describes routine := by
  obtain ⟨counters, after, compiled⟩ := compiled
  simp only [Compilation.compileDefinition, bind_eq_ok, pure_eq_ok, Prod.exists,
    Prod.mk.injEq] at compiled
  obtain ⟨body, _, -, ending, _, compiledEnding, _, assembled, rfl, -⟩ := compiled
  obtain ⟨-, sameKind, sameParameters, -⟩ := Routine.assemble_eq_ok assembled
  obtain ⟨span, isLast⟩ := Compilation.getLast?_compileReturn notMain compiledEnding
  obtain ⟨infoKind, arity, returns⟩ := info
  have told : defn.kind = infoKind ∧ defn.parameters.length = arity ∧
      defn.returned.length = returns.length := by
    cases kind : defn.kind with
    | procedure =>
      rw [Definition.shape_of_procedure kind] at shape
      cases infoKind with
      | function => cases shape
      | procedure =>
        cases shape
        have noReturn := regular.silent kind notMain
        cases silent rfl
        simp [Definition.returned, noReturn]
    | function =>
      rw [Definition.shape_of_function kind] at shape
      cases infoKind with
      | procedure => cases shape
      | function =>
        simp only [RoutineInfo.shape, Shape.function.injEq] at shape
        exact ⟨rfl, shape.1.symm, shape.2.symm⟩
  obtain ⟨kind, params, results⟩ := told
  refine ⟨sameKind.trans kind, ?_, span, ?_⟩
  · rw [sameParameters]
    exact params
  · rw [Routine.code_of_assemble assembled, getLast?_append, isLast, results]
    rfl

theorem Compilation.routine_of_compileModule
    (compiled : compileModule qualifier file links prog = .ok home)
    (nodup : (prog.definitions.map Definition.name).Nodup) (name : String) :
    Option.Rel Definition.CompilesTo (prog.definition? name) (home.routines.get? name) := by
  obtain ⟨routines, compiledAll, isHome⟩ := bind_eq_ok.mp compiled
  cases pure_eq_ok.mp isHome
  have own := get?_compileDefinitions nodup compiledAll name
  rw [← Program.definition?] at own
  cases isOwn : prog.definition? name with
  | none =>
    rw [isOwn] at own
    rw [show Table.get? routines name = none from own]
    exact .none
  | some defn =>
    rw [isOwn] at own
    obtain ⟨routine, isRoutine, fromDefinition⟩ := own
    rw [isRoutine]
    exact .some fromDefinition

theorem Compilation.name_of_compileModule
    (compiled : compileModule qualifier file links prog = .ok home)
    (nodup : (prog.definitions.map Definition.name).Nodup)
    (found : home.routines.get? name = some routine) : routine.name = name := by
  have own := routine_of_compileModule compiled nodup name
  rw [found] at own
  cases isOwn : prog.definition? name with
  | none =>
    rw [isOwn] at own
    cases own
  | some defn =>
    rw [isOwn] at own
    cases own with
    | some fromDefinition =>
      obtain ⟨_, _, _, _, _, -, -, -, named, -⟩ := fromDefinition.parts
      exact named.trans (by simpa using find?_some isOwn)

/-! ## Following imports -/

theorem ModulesSound.site_of_find?
    (found : mods.find? (fun known => known.name == src) = some known) :
    ∃ older, Site.module? mods src = some ⟨known.program, older⟩ := by
  induction mods with
  | nil => cases found
  | cons first older ih =>
    rw [Site.module?]
    by_cases same : first.name = src
    · rw [find?_cons_of_pos (by simpa using same)] at found
      cases found
      exact ⟨older, if_pos same⟩
    · rw [find?_cons_of_neg (by simpa using same)] at found
      rw [if_neg same]
      exact ih found

namespace Library

/-- Following import declarations from module to module leads from a program to the module that
defines a name. -/
inductive ImportsFrom (library : Library) (name : String) : Program → Analyzed → Prop
  | direct {program : Program} {declaration : Import} {origin : Analyzed}
      (member : declaration ∈ program.imports) (listed : name ∈ declaration.names.map Prod.fst)
      (found : library.analyzed? declaration.source = some origin)
      (defined : (origin.program.definition? name).isSome) : ImportsFrom library name program origin
  | passed {program : Program} {declaration : Import} {known origin : Analyzed}
      (member : declaration ∈ program.imports) (listed : name ∈ declaration.names.map Prod.fst)
      (found : library.analyzed? declaration.source = some known)
      (undefined : known.program.definition? name = none)
      (further : ImportsFrom library name known.program origin) :
      ImportsFrom library name program origin

variable {lib : Library} {name : String}

theorem ImportsFrom.unique (sound : ModulesSound lib.analyzed) {origin other : Analyzed}
    (imports : lib.ImportsFrom name prog origin) (nodup : (importedNames prog.imports).Nodup)
    (others : lib.ImportsFrom name prog other) : other = origin := by
  induction imports with
  | direct mem listed found defined =>
    have isImport := Program.importOf?_of_mem nodup mem listed
    cases others with
    | direct otherMember otherListed otherFound =>
      cases isImport.symm.trans (Program.importOf?_of_mem nodup otherMember otherListed)
      exact Option.some.inj (otherFound.symm.trans found)
    | passed otherMember otherListed otherFound undefined =>
      cases isImport.symm.trans (Program.importOf?_of_mem nodup otherMember otherListed)
      cases found.symm.trans otherFound
      rw [undefined] at defined
      cases defined
  | passed mem listed found undefined _ ih =>
    have isImport := Program.importOf?_of_mem nodup mem listed
    obtain ⟨older, isModule⟩ := ModulesSound.site_of_find? found
    cases others with
    | direct otherMember otherListed otherFound defined =>
      cases isImport.symm.trans (Program.importOf?_of_mem nodup otherMember otherListed)
      cases found.symm.trans otherFound
      rw [undefined] at defined
      cases defined
    | passed otherMember otherListed otherFound _ further =>
      cases isImport.symm.trans (Program.importOf?_of_mem nodup otherMember otherListed)
      cases found.symm.trans otherFound
      exact ih (sound.module? isModule).1.importsNodup further

/-- A compiled form is the one that is kept of a module. -/
structure Keeps (library : Library) (home : CompiledModule) (known : Analyzed) : Prop where
  kept : library.compiled.get? known.name = some home
  represents : library.Represents home known

theorem Consistent.keeps (consistent : lib.Consistent)
    (isKept : lib.compiled.get? src = some home) :
    ∃ known, lib.analyzed? src = some known ∧ lib.Keeps home known := by
  obtain ⟨known, rfl, represents⟩ := consistent.represents isKept
  exact ⟨known, represents.found, isKept, represents⟩

/-- Whatever the compiled form of a module exports is a routine of the module that defines it. -/
def Traced (library : Library) (known : Analyzed) : Prop :=
  ∀ ⦃home : CompiledModule⦄ ⦃name : String⦄ ⦃owner : CompiledModule⦄ ⦃routine : Routine⦄,
    library.Keeps home known → home.exported? name = some (owner, routine) →
    owner.routines.get? name = some routine ∧ ∃ origin, library.Keeps owner origin ∧
      ((origin = known ∧ (known.program.definition? name).isSome) ∨
        known.program.definition? name = none ∧ library.ImportsFrom name known.program origin)

theorem Linked.traced {owner : CompiledModule} (linked : lib.Linked prog links)
    (consistent : lib.Consistent) (traced : ∀ decl ∈ prog.imports, ∀ known,
      lib.analyzed? decl.source = some known → lib.Traced known)
    (isLink : links.get? name = some (owner, routine)) : owner.routines.get? name = some routine ∧
      ∃ origin, lib.Keeps owner origin ∧ lib.ImportsFrom name prog origin := by
  have isImported : name ∈ importedNames prog.imports := by
    by_contra absent
    cases (linked.others name absent).symm.trans isLink
  obtain ⟨decl, mem, listed⟩ := List.mem_flatMap.mp isImported
  obtain ⟨src, isKept, exported⟩ := linked.found decl mem
  obtain ⟨known, found, keeps⟩ := consistent.keeps isKept
  have isExported : src.exported? name = some (owner, routine) := by
    obtain ⟨entry, entryMember, rfl⟩ := List.mem_map.mp listed
    rw [← exported entry entryMember]
    exact isLink
  obtain ⟨own, origin, ownerKept, ⟨rfl, defined⟩ | ⟨undefined, further⟩⟩ :=
    traced decl mem known found keeps isExported
  · exact ⟨own, origin, ownerKept, .direct mem listed found defined⟩
  · exact ⟨own, origin, ownerKept, .passed mem listed found undefined further⟩

theorem Consistent.traced_of_suffix (consistent : lib.Consistent)
    (suffix : mods <:+ lib.analyzed) : ∀ known ∈ mods, lib.Traced known := by
  induction mods with
  | nil => intro known mem; cases mem
  | cons first older ih =>
    have olderSuffix := (suffix_cons first older).trans suffix
    obtain ⟨-, sound, -, -⟩ := consistent.sound.of_suffix suffix
    refine List.forall_mem_cons.mpr ⟨?_, ih olderSuffix⟩
    intro home name owner routine keeps exported
    have own := Compilation.routine_of_compileModule keeps.represents.compiled sound.nodup name
    unfold CompiledModule.exported? at exported
    cases isOwn : home.routines.get? name with
    | some found =>
      rw [isOwn] at exported own
      cases exported
      refine ⟨isOwn, first, keeps, .inl ⟨rfl, ?_⟩⟩
      generalize first.program.definition? name = defn at own
      cases own
      rfl
    | none =>
      rw [isOwn] at exported own
      have undefined : first.program.definition? name = none := by
        generalize first.program.definition? name = defn at own
        cases own
        rfl
      -- a module only imports from those before it
      have traced : ∀ decl ∈ first.program.imports, ∀ known,
          lib.analyzed? decl.source = some known → lib.Traced known := by
        intro decl mem known found
        obtain ⟨other, isFirst⟩ := sound.find?_of_import mem
        have stillFound := consistent.sound.find?_of_suffix olderSuffix isFirst
        cases found.symm.trans stillFound
        exact ih olderSuffix known (mem_of_find?_eq_some isFirst)
      obtain ⟨isRoutine, origin, ownerKept, imports⟩ :=
        keeps.represents.linked.traced consistent traced exported
      exact ⟨isRoutine, origin, ownerKept, .inr ⟨undefined, imports⟩⟩

theorem Consistent.exported_of_offered (consistent : lib.Consistent) {decl : Import}
    (offered : decl.OfferedBy lib.analyzed)
    (listed : name ∈ decl.names.map Prod.fst) {src : CompiledModule}
    (isKept : lib.compiled.get? decl.source = some src) :
    ∃ owner routine known info, src.exported? name = some (owner, routine) ∧
      lib.analyzed? decl.source = some known ∧
      known.interface.get? name = some info ∧ info.Describes routine := by
  obtain ⟨known, found, offers⟩ := offered
  obtain ⟨entry, entryMember, rfl⟩ := List.mem_map.mp listed
  obtain ⟨notMain, isSome⟩ := offers entry entryMember
  obtain ⟨info, told⟩ := Option.isSome_iff_exists.mp isSome
  obtain ⟨site, isModule, siteOffers⟩ := consistent.sound.offers found
  obtain ⟨sound, modsSound⟩ := consistent.sound.module? isModule
  have there := (consistent.builtAs isKept isModule).exported? sound modsSound entry.1
  have shape := siteOffers entry.1
  rw [told, if_neg notMain] at shape
  cases isRoutine : site.routine? entry.1 with
  | none =>
    rw [isRoutine] at shape
    cases shape
  | some meaning =>
    obtain ⟨other, defn⟩ := meaning
    rw [isRoutine] at shape there
    obtain ⟨owner, routine, exported, -, compiled⟩ := there
    obtain ⟨otherSound, -, mem, named⟩ := sound.routine? modsSound isRoutine
    have isNotMain : defn.isMain = false := by simp [Definition.isMain, named, notMain]
    have silent := consistent.tidy known (mem_of_find?_eq_some found) _ _ told
    exact ⟨owner, routine, known, info, exported, found, told, compiled.describes
      (otherSound.regular _ mem).1 isNotMain (Option.some.inj shape) silent⟩

/-- A link of a program leads to the routine of a module: the one module that defines the name,
and the routine that the program has been told about. -/
structure LeadsTo (library : Library) (program : Program) (name : String)
    (owner : CompiledModule) (routine : Routine) : Prop where
  own : owner.routines.get? name = some routine
  origin : ∃ origin, library.Keeps owner origin ∧ library.ImportsFrom name program origin ∧
    ∀ other, library.ImportsFrom name program other → other = origin
  told : ∀ declaration ∈ program.imports, name ∈ declaration.names.map Prod.fst →
    ∃ known info, library.analyzed? declaration.source = some known ∧
      known.interface.get? name = some info ∧ info.Describes routine

/-- A compiled form of a program whose imports are modules of the library. -/
structure Carries (library : Library) (program : Program) (home : CompiledModule) : Prop where
  compiled : ∃ qualifier file,
    Compilation.compileModule qualifier file home.links program = .ok home
  linked : library.Linked program home.links
  nodup : (program.definitions.map Definition.name).Nodup
  importsNodup : (importedNames program.imports).Nodup
  offered : ∀ declaration ∈ program.imports, declaration.OfferedBy library.analyzed

theorem Keeps.carries (keeps : lib.Keeps home known) (consistent : lib.Consistent) :
    lib.Carries known.program home := by
  obtain ⟨older, isModule⟩ := ModulesSound.site_of_find? keeps.represents.found
  obtain ⟨sound, -⟩ := consistent.sound.module? isModule
  exact ⟨⟨_, _, keeps.represents.compiled⟩, keeps.represents.linked, sound.nodup,
    sound.importsNodup,
    consistent.offered known (mem_of_find?_eq_some keeps.represents.found)⟩

section Carries

variable {prog : Program} {home owner : CompiledModule} {routine : Routine}

theorem Carries.leadsTo (carries : lib.Carries prog home) (consistent : lib.Consistent)
    (isLink : Table.get? home.links name = some (owner, routine)) :
    lib.LeadsTo prog name owner routine := by
  have traced := consistent.traced_of_suffix suffix_rfl
  obtain ⟨own, origin, keeps, imports⟩ := carries.linked.traced consistent
    (fun _ _ known found => traced known (mem_of_find?_eq_some found)) isLink
  refine ⟨own, ⟨origin, keeps, imports, fun other others =>
    imports.unique consistent.sound carries.importsNodup others⟩, ?_⟩
  intro decl mem listed
  obtain ⟨src, isKept, exported⟩ := carries.linked.found decl mem
  obtain ⟨_, _, known, info, isExported, found, told, describes⟩ :=
    consistent.exported_of_offered (carries.offered decl mem) listed isKept
  obtain ⟨entry, entryMember, rfl⟩ := List.mem_map.mp listed
  cases (exported entry entryMember).symm.trans isLink ▸ isExported
  exact ⟨known, info, found, told, describes⟩

theorem Carries.isLinked (carries : lib.Carries prog home)
    (consistent : lib.Consistent) (imported : name ∈ importedNames prog.imports) :
    (Table.get? home.links name).isSome := by
  obtain ⟨decl, mem, listed⟩ := List.mem_flatMap.mp imported
  obtain ⟨src, isKept, exported⟩ := carries.linked.found decl mem
  obtain ⟨_, _, _, _, isExported, -⟩ :=
    consistent.exported_of_offered (carries.offered decl mem) listed isKept
  obtain ⟨entry, entryMember, rfl⟩ := List.mem_map.mp listed
  rw [exported entry entryMember, isExported]
  rfl

theorem Carries.named (carries : lib.Carries prog home)
    (found : home.routines.get? name = some routine) : routine.name = name := by
  obtain ⟨_, _, compiled⟩ := carries.compiled
  exact Compilation.name_of_compileModule compiled carries.nodup found

end Carries

end Library

/-- A module, or one that links lead to from it. -/
inductive CompiledModule.Reaches (first : CompiledModule) : CompiledModule → Prop
  | refl : Reaches first first
  | link {home owner : CompiledModule} {name : String} {routine : Routine}
      (reaches : Reaches first home) (linked : Table.get? home.links name = some (owner, routine)) :
      Reaches first owner

/-- Links lead from a first program to compiled forms of modules. -/
theorem Library.Carries.of_reaches (carries : lib.Carries prog first)
    (consistent : lib.Consistent) (reaches : first.Reaches home) :
    ∃ part, (home = first ∧ part = prog ∨
        ∃ known, lib.Keeps home known ∧ part = known.program) ∧
      lib.Carries part home := by
  induction reaches with
  | refl => exact ⟨prog, .inl ⟨rfl, rfl⟩, carries⟩
  | link _ linked ih =>
    obtain ⟨part, -, partCarries⟩ := ih
    obtain ⟨origin, keeps, -⟩ := (partCarries.leadsTo consistent linked).origin
    exact ⟨origin.program, .inr ⟨origin, keeps, rfl⟩, keeps.carries consistent⟩

/-! ## Calls under way -/

namespace Machine

variable {limit : Nat} {machine : Machine}

theorem Steps.calls {floor : Nat} {first last : Machine} {good : CompiledModule × Routine → Prop}
    (steps : Steps limit floor count first last)
    (closed : ∀ call name other, good call → call.1.exported? name = some other → good other)
    (start : ∀ call ∈ first.calls, good call) : ∀ call ∈ last.calls, good call := by
  induction steps with
  | refl => exact start
  | head _ stepped _ ih => exact ih ((step_moves stepped).calls closed start)

/-- A call of a name that the module of the caller defines is a call of this definition. -/
theorem step_of_own {next : Machine} {span : Span}
    (isCall : machine.frame.routine.code[machine.frame.offset]? = some (.call name count, span))
    (own : machine.frame.home.routines.get? name = some routine)
    (stepped : machine.step limit = .next next) :
    next.frame.home = machine.frame.home ∧ next.frame.routine = routine := by
  have exported : machine.frame.home.exported? name = some (machine.frame.home, routine) := by
    rw [CompiledModule.exported?, own]
  have called : machine.step limit =
      machine.advance.callRoutine limit name count machine.frame.home routine := by
    unfold step
    dsimp only
    rw [isCall]
    simp only [execute, call]
    rw [show machine.advance.frame.home.exported? name = _ from exported]
  rw [called, callRoutine] at stepped
  split at stepped
  · cases stepped
  · split at stepped
    · cases stepped
    · unfold withValues at stepped
      split at stepped
      · cases stepped
        exact ⟨rfl, rfl⟩
      · cases stepped

end Machine

theorem Library.Carries.frames (carries : lib.Carries prog first)
    (consistent : lib.Consistent) {main : Routine}
    (isMain : first.routines.get? "Main" = some main) {limit : Nat} {scene : Scene}
    {machine : Machine}
    (steps : Machine.Steps limit 0 count (Machine.start first main scene) machine) :
    ∀ frame ∈ machine.frames, first.Reaches frame.home ∧
      frame.home.routines.get? frame.routine.name = some frame.routine := by
  have known {home : CompiledModule} {name : String} {routine : Routine}
      (reaches : first.Reaches home) (found : home.routines.get? name = some routine) :
      home.routines.get? routine.name = some routine := by
    obtain ⟨part, -, partCarries⟩ := carries.of_reaches consistent reaches
    rw [partCarries.named found]
    exact found
  have calls : ∀ call ∈ machine.calls, first.Reaches call.1 ∧
      call.1.routines.get? call.2.name = some call.2 := by
    refine steps.calls ?_ ?_
    · rintro ⟨home, _⟩ name ⟨owner, routine⟩ ⟨reaches, -⟩ exported
      cases isOwn : home.routines.get? name with
      | some own =>
        rw [CompiledModule.exported?, isOwn] at exported
        cases exported
        exact ⟨reaches, known reaches isOwn⟩
      | none =>
        rw [CompiledModule.exported?, isOwn] at exported
        obtain ⟨part, -, partCarries⟩ := carries.of_reaches consistent reaches
        have own := (partCarries.leadsTo consistent exported).own
        exact ⟨.link reaches exported, known (.link reaches exported) own⟩
    · intro call mem
      cases List.mem_singleton.mp mem
      exact ⟨.refl, known .refl isMain⟩
  intro frame mem
  exact calls _ (mem_map_of_mem mem)

namespace Library

theorem Consistent.carries_of_loadEntry {opts : Settings} {before last : Library}
    {compiled : CompiledModule} (consistent : before.Consistent)
    (loads : Loads (loadEntry opts file src) before compiled last) :
    last.Consistent ∧ ∃ prog analyzed main,
      Loads (analyzeEntry opts file src) before prog analyzed ∧
      last.Carries prog compiled ∧ compiled.routines.get? "Main" = some main := by
  obtain ⟨prog, analyzed, analyzes, compiles⟩ := loads_bind.mp loads
  obtain ⟨-, -, sound, main, isMain, -⟩ := sound_of_analyzeEntry analyzes consistent.sound
  obtain ⟨enlarges, offered⟩ := loads_analyzeEntry analyzes consistent.toChecked
  simp only [compileEntry, loads_rethrow, loads_bind, loads_lift] at compiles
  obtain ⟨links, _, linkedAll, compiledAll, rfl⟩ := compiles
  have between := (enlarges.grows consistent).consistent
  obtain ⟨_, _, _, loads, -, furthers, -, linked, -⟩ :=
    between.proper.builtAs sound suffix_rfl opts file
  cases linkedAll.symm.trans loads
  have grows := furthers.grows between
  have own := Compilation.routine_of_compileModule compiledAll sound.nodup "Main"
  rw [isMain] at own
  cases isRoutine : compiled.routines.get? "Main" with
  | none =>
    rw [isRoutine] at own
    cases own
  | some routine =>
    refine ⟨grows.consistent, prog, analyzed, routine, analyzes, ?_, rfl⟩
    clear own
    obtain ⟨routines, compiledDefinitions, isCompiled⟩ := bind_eq_ok.mp compiledAll
    cases pure_eq_ok.mp isCompiled
    exact ⟨⟨_, _, compiledAll⟩, linked, sound.nodup, sound.importsNodup,
      fun decl mem =>
        (offered decl mem).of_suffix grows.consistent.sound grows.suffix⟩

end Library

open Library

/-- When a first program has been loaded, whatever has been asked of the library before, every
name that it or a program behind its links imports is linked to the routine of this name in the
one module that defines the name.  In all runs, calls are of routines of the modules that they are
under way in, and go to definitions of the same module where there are any. -/
theorem links_lead_to_definitions (earlier : List (Settings × Request)) {settings : Settings}
    {file source : String} {compiled : CompiledModule} {last : Library}
    (loads : Loads (loadEntry settings file source) (Library.empty.afterAll earlier) compiled
      last) :
    ∃ program analyzed main,
      Loads (analyzeEntry settings file source) (Library.empty.afterAll earlier) program analyzed ∧
      compiled.routines.get? "Main" = some main ∧
      (∀ home, compiled.Reaches home → ∃ part,
        (home = compiled ∧ part = program ∨
          ∃ known, last.Keeps home known ∧ part = known.program) ∧
        (∀ name ∈ importedNames part.imports, (Table.get? home.links name).isSome) ∧
        ∀ name owner routine, Table.get? home.links name = some (owner, routine) →
          last.LeadsTo part name owner routine) ∧
      ∀ maxDepth count scene machine,
        Machine.Steps maxDepth 0 count (Machine.start compiled main scene) machine →
        (∀ frame ∈ machine.frames, compiled.Reaches frame.home ∧
          frame.home.routines.get? frame.routine.name = some frame.routine) ∧
        ∀ name arguments span own next,
          machine.frame.routine.code[machine.frame.offset]? = some (.call name arguments, span) →
          machine.frame.home.routines.get? name = some own →
          machine.step maxDepth = .next next →
          next.frame.home = machine.frame.home ∧ next.frame.routine = own := by
  obtain ⟨consistent, program, analyzed, main, analyzes, carries, isMain⟩ :=
    (consistent_empty.afterAll earlier).consistent.carries_of_loadEntry loads
  refine ⟨program, analyzed, main, analyzes, isMain, fun home reaches => ?_,
    fun maxDepth count scene machine steps => ⟨carries.frames consistent isMain steps, ?_⟩⟩
  · obtain ⟨part, isPart, partCarries⟩ := carries.of_reaches consistent reaches
    exact ⟨part, isPart, fun name imported => partCarries.isLinked consistent imported,
      fun name owner routine isLink => partCarries.leadsTo consistent isLink⟩
  · intro name arguments span own next isCall isOwn stepped
    exact Machine.step_of_own isCall isOwn stepped

/-- A name that is passed on by a module is linked to the module that defines it. -/
theorem chain_leads_to_base :
    ∃ compiled last program owner routine,
      Loads (loadEntry ⟨chainCatalogue, true⟩ "main.gbs" chainSource) (Library.empty.afterAll [])
        compiled last ∧
      Table.get? compiled.links "two" = some (owner, routine) ∧ owner.qualifier = "Base" ∧
      last.LeadsTo program "two" owner routine := by
  have linked : ((Id.run ((loadEntry ⟨chainCatalogue, true⟩ "main.gbs" chainSource).run.run
      (Library.empty.afterAll []))).1.toOption.bind fun compiled =>
        (Table.get? compiled.links "two").map fun link => link.1.qualifier) = some "Base" := by
    decide +kernel
  rcases isOutcome : Id.run ((loadEntry ⟨chainCatalogue, true⟩ "main.gbs" chainSource).run.run
      (Library.empty.afterAll [])) with ⟨error | compiled, last⟩
  · rw [isOutcome] at linked
    cases linked
  · rw [isOutcome, Except.toOption, Option.bind_some] at linked
    obtain ⟨⟨owner, routine⟩, isLink, qualifier⟩ := Option.map_eq_some_iff.mp linked
    obtain ⟨program, analyzed, main, -, -, links, -⟩ := links_lead_to_definitions [] isOutcome
    obtain ⟨part, -, -, leads⟩ := links compiled .refl
    exact ⟨compiled, last, part, owner, routine, isOutcome, isLink, qualifier,
      leads "two" owner routine isLink⟩

end StoneBoard
