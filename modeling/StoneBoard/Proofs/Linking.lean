import StoneBoard.Proofs.Analysis
import StoneBoard.Proofs.Assembly
import StoneBoard.Proofs.Linkage

/-!
# Programs that have been compiled

Every program that the library accepts can be compiled.  In the compiled form, every name
stands for the code of the definition that it stands for in the program.
-/

namespace StoneBoard

open List

variable {site : Site}
variable {home : CompiledModule} {src : String}

/-! ## Definitions -/

namespace Compilation

variable {defns : List Definition}

theorem compileDefinitions_succeeds {shapes : String → Option Shape}
    (regular : ∀ defn ∈ defns, defn.Regular shapes) (counters : Counters)
    (routines : Table Routine) : ∃ all, compileDefinitions counters routines defns = .ok all := by
  induction defns generalizing counters routines with
  | nil => exact ⟨routines, rfl⟩
  | cons first rest ih =>
    obtain ⟨firstRegular, restRegular⟩ := List.forall_mem_cons.mp regular
    obtain ⟨routine, after, compiled⟩ := compileDefinition_succeeds counters firstRegular
    obtain ⟨all, compiledRest⟩ := ih restRegular after (routines.insert first.name routine)
    exact ⟨all, bind_eq_ok.mpr ⟨_, compiled, compiledRest⟩⟩

theorem get?_compileDefinitions {counters : Counters} {routines all : Table Routine}
    (nodup : (defns.map Definition.name).Nodup)
    (compiled : compileDefinitions counters routines defns = .ok all) (name : String) :
    match defns.find? fun defn => defn.name == name with
    | some defn =>
      ∃ routine, all.get? name = some routine ∧ defn.CompilesTo routine
    | none => all.get? name = routines.get? name := by
  induction defns generalizing counters routines with
  | nil =>
    cases compiled
    rfl
  | cons first rest ih =>
    rw [map_cons, nodup_cons] at nodup
    simp only [compileDefinitions, bind_eq_ok, Prod.exists] at compiled
    obtain ⟨routine, after, compiledFirst, compiledRest⟩ := compiled
    have known := ih nodup.2 compiledRest
    rw [find?_cons]
    by_cases same : first.name = name
    · have others : rest.find? (fun defn => defn.name == name) = none := by
        rw [find?_eq_none]
        intro other mem sameName
        exact nodup.1 (List.mem_map.mpr ⟨other, mem, (beq_iff_eq.mp sameName).trans same.symm⟩)
      rw [others, Table.get?_insert, if_pos same.symm] at known
      simp only [same, beq_self_eq_true]
      exact ⟨routine, known, counters, after, compiledFirst⟩
    · rw [Table.get?_insert, if_neg (Ne.symm same)] at known
      simp only [beq_eq_false_iff_ne.mpr same]
      exact known

/-- The names of an import are linked to what the compiled module exports under them. -/
theorem linkNames_succeeds {src : CompiledModule} {names : List (String × Span)}
    (exported : ∀ entry ∈ names, (src.exported? entry.1).isSome)
    (links : Table (CompiledModule × Routine)) : ∃ after, linkNames src links names = .ok after ∧
      ∀ name, after.get? name =
        if name ∈ names.map Prod.fst then src.exported? name else links.get? name := by
  induction names generalizing links with
  | nil => exact ⟨links, rfl, fun name => by simp⟩
  | cons first rest ih =>
    obtain ⟨firstName, span⟩ := first
    obtain ⟨firstExported, restExported⟩ := List.forall_mem_cons.mp exported
    obtain ⟨link, isLink⟩ := Option.isSome_iff_exists.mp firstExported
    obtain ⟨after, linked, known⟩ := ih restExported (links.insert firstName link)
    refine ⟨after, by rw [linkNames, isLink]; exact linked, fun name => ?_⟩
    simp only [known, Table.get?_insert, map_cons, mem_cons]
    by_cases inRest : name ∈ rest.map Prod.fst
    · simp [inRest]
    · by_cases same : name = firstName
      · subst same
        simp [inRest, isLink]
      · simp [inRest, same]

end Compilation

/-! ## Modules -/

/-- A compiled module comes from a program: its routines are the code of the definitions, and
its links are what the compiled forms of its imports export. -/
inductive Site.BuiltAs : Site → CompiledModule → Prop
  | intro {site : Site} {home : CompiledModule} (sources : String → CompiledModule)
      (routines : Compilation.compileDefinitions .start [] site.program.definitions =
        .ok home.routines)
      (built : ∀ name declaration other, site.program.importOf? name = some declaration →
        Site.module? site.modules declaration.source = some other → BuiltAs other (sources name))
      (links : ∀ name, Table.get? home.links name =
        (site.program.importOf? name).bind fun _ => (sources name).exported? name) :
      BuiltAs site home

namespace Site.BuiltAs

variable {site : Site} {home : CompiledModule}

theorem exported? (built : site.BuiltAs home) (sound : site.Sound)
    (mods : ModulesSound site.modules) (name : String) :
    match site.routine? name with
    | some (other, defn) => ∃ otherHome routine,
        home.exported? name = some (otherHome, routine) ∧ other.BuiltAs otherHome ∧
          defn.CompilesTo routine
    | none => home.exported? name = none := by
  induction built with
  | @intro site home sources routines built links ih =>
    have own := Compilation.get?_compileDefinitions sound.nodup routines name
    rw [← Program.definition?] at own
    rw [Site.routine?, CompiledModule.exported?]
    cases isOwn : site.program.definition? name with
    | some defn =>
      rw [isOwn] at own
      obtain ⟨routine, found, compiled⟩ := own
      rw [found]
      exact ⟨home, routine, rfl, .intro sources routines built links, compiled⟩
    | none =>
      rw [isOwn] at own
      rw [show home.routines.get? name = none from own, links]
      cases imported : site.program.importOf? name with
      | none => rfl
      | some decl =>
        obtain ⟨mem, -⟩ := Program.importOf?_eq_some imported
        obtain ⟨other, isModule, -⟩ := sound.sources decl mem
        obtain ⟨otherSound, otherModules⟩ := mods.module? isModule
        have there := ih name decl other imported isModule otherSound otherModules
        simp only [Site.exported?_eq, isModule, Option.bind_some]
        exact there

theorem isSome_exported? (built : site.BuiltAs home) (sound : site.Sound)
    (mods : ModulesSound site.modules) {name : String}
    (known : (site.routine? name).isSome) : (home.exported? name).isSome := by
  obtain ⟨found, isFound⟩ := Option.isSome_iff_exists.mp known
  have there := built.exported? sound mods name
  rw [isFound] at there
  obtain ⟨_, _, isExported, -⟩ := there
  rw [isExported]
  rfl

end Site.BuiltAs

theorem linking_builtAs : Linking fun site home =>
    site.Sound ∧ ModulesSound site.modules ∧ site.BuiltAs home where
  regular := by
    rintro site home name other defn ⟨sound, mods, -⟩ found
    obtain ⟨otherSound, -, mem, -⟩ := sound.routine? mods found
    exact otherSound.regular defn mem
  found := by
    rintro site home name other defn ⟨sound, mods, built⟩ found
    obtain ⟨otherSound, otherModules, -⟩ := sound.routine? mods found
    have there := built.exported? sound mods name
    rw [found] at there
    obtain ⟨otherHome, routine, exported, otherBuilt, compiled⟩ := there
    exact ⟨otherHome, routine, exported, ⟨otherSound, otherModules, otherBuilt⟩, compiled⟩
  absent := by
    rintro site home name ⟨sound, mods, built⟩ absent
    have there := built.exported? sound mods name
    rw [absent] at there
    exact there
  reserved := by
    rintro site home name ⟨sound, mods, -⟩ isBuiltin
    exact sound.reserved mods isBuiltin

theorem Site.BuiltAs.realizes (built : site.BuiltAs home) (sound : site.Sound)
    (mods : ModulesSound site.modules) {defn : Definition}
    (mem : defn ∈ site.program.definitions) {routine : Routine}
    (compiled : defn.CompilesTo routine) : Realizes site defn home routine := by
  obtain ⟨regular, named⟩ := sound.regular defn mem
  exact ⟨⟨_, linking_builtAs, sound, mods, built⟩, regular, named, compiled⟩

/-! ## Compilation without a library -/

namespace Library

variable {mods : List Analyzed} {prog : Program} {links : Table (CompiledModule × Routine)}
  {name : String} {known : Analyzed} {compile : String → Span → Loading CompiledModule}
  {lib before after : Library}

def linkFrom (compile : String → Except Error CompiledModule) (program : Program) :
    Except Error (Table (CompiledModule × Routine)) :=
  program.imports.foldlM (fun links declaration => do
    let source ← compile declaration.source
    Compilation.linkNames source links declaration.names) []

def compileFrom : List Analyzed → String → Except Error CompiledModule
  | [], name => .error (.located (.moduleNotFound name) .nowhere)
  | known :: older, name =>
      if known.name = name then do
        let links ← linkFrom (compileFrom older) known.program
        Compilation.compileModule name known.file links known.program
      else compileFrom older name

theorem find?_of_compileFrom (compiled : compileFrom mods name = .ok home) :
    ∃ known, mods.find? (fun known => known.name == name) = some known := by
  induction mods with
  | nil => cases compiled
  | cons first older ih =>
    rw [compileFrom] at compiled
    split at compiled
    next same => exact ⟨first, find?_cons_of_pos (by simpa using same)⟩
    next differ =>
      rw [find?_cons_of_neg (by simpa using differ)]
      exact ih compiled

theorem compileFrom_of_suffix {longer : List Analyzed} (sound : ModulesSound longer)
    (suffix : mods <:+ longer) (found : mods.find? (fun known => known.name == name) = some known) :
    compileFrom longer name = compileFrom mods name := by
  obtain ⟨extra, rfl⟩ := suffix
  induction extra with
  | nil => rfl
  | cons first rest ih =>
    obtain ⟨isNew, -, -, restSound⟩ := sound
    have named : known.name = name := by simpa using find?_some found
    have differ : first.name ≠ name := by
      rw [← named]
      exact (isNew known (mem_append_right rest (mem_of_find?_eq_some found))).symm
    rw [cons_append, compileFrom, if_neg differ]
    exact ih restSound

/-- The links of a program are what the modules export that `compile` finds. -/
structure LinkedBy (compile : String → Except Error CompiledModule) (program : Program)
    (links : Table (CompiledModule × Routine)) : Prop where
  found : ∀ declaration ∈ program.imports, ∃ source, compile declaration.source = .ok source ∧
    ∀ entry ∈ declaration.names, links.get? entry.1 = source.exported? entry.1
  others : ∀ name, name ∉ importedNames program.imports → links.get? name = none

theorem linkFrom_succeeds {compile : String → Except Error CompiledModule}
    (nodup : (importedNames prog.imports).Nodup)
    (sources : ∀ decl ∈ prog.imports, ∃ src, compile decl.source = .ok src ∧
      ∀ entry ∈ decl.names, (src.exported? entry.1).isSome) :
    ∃ links, linkFrom compile prog = .ok links ∧ LinkedBy compile prog links := by
  obtain ⟨imports, defns⟩ := prog
  suffices all : ∀ known : Table (CompiledModule × Routine), ∃ links,
      imports.foldlM (fun links decl => do
        let src ← compile decl.source
        Compilation.linkNames src links decl.names) known = .ok links ∧
      (∀ decl ∈ imports, ∃ src, compile decl.source = .ok src ∧
        ∀ entry ∈ decl.names, links.get? entry.1 = src.exported? entry.1) ∧
      ∀ name, name ∉ importedNames imports → links.get? name = known.get? name by
    obtain ⟨links, linked, found, others⟩ := all []
    exact ⟨links, linked, found, others⟩
  dsimp only at nodup sources
  induction imports with
  | nil => exact fun known => ⟨known, rfl, by simp, fun _ _ => rfl⟩
  | cons decl rest ih =>
    intro known
    obtain ⟨⟨src, isSource, exported⟩, restSources⟩ := List.forall_mem_cons.mp sources
    rw [importedNames, flatMap_cons, nodup_append'] at nodup
    obtain ⟨-, restNodup, apart⟩ := nodup
    obtain ⟨middle, linked, told⟩ := Compilation.linkNames_succeeds exported known
    obtain ⟨links, linkedRest, found, others⟩ := ih restNodup restSources middle
    refine ⟨links, ?_, List.forall_mem_cons.mpr ⟨⟨src, isSource, fun entry mem => ?_⟩, found⟩,
      fun name absent => ?_⟩
    · rw [foldlM_cons, isSource]
      exact bind_eq_ok.mpr ⟨middle, linked, linkedRest⟩
    · have listed : entry.1 ∈ decl.names.map Prod.fst := mem_map_of_mem mem
      rw [others _ (apart listed), told, if_pos listed]
    · rw [importedNames, flatMap_cons, mem_append, not_or] at absent
      rw [others name absent.2, told, if_neg absent.1]

theorem LinkedBy.exported {compile : String → Except Error CompiledModule}
    (linkedBy : LinkedBy compile prog links) {link : CompiledModule × Routine}
    (isLink : links.get? name = some link) :
    ∃ decl ∈ prog.imports, ∃ src, compile decl.source = .ok src ∧
      src.exported? name = some link := by
  by_cases imported : name ∈ importedNames prog.imports
  · obtain ⟨decl, mem, listed⟩ := List.mem_flatMap.mp imported
    obtain ⟨src, isSource, exported⟩ := linkedBy.found decl mem
    obtain ⟨entry, entryMember, rfl⟩ := List.mem_map.mp listed
    exact ⟨decl, mem, src, isSource, (exported entry entryMember).symm.trans isLink⟩
  · cases (linkedBy.others name imported).symm.trans isLink

/-- A sound program can be compiled once its imports can. -/
theorem builtAs_of_sources (sound : site.Sound) (modsSound : ModulesSound site.modules)
    (sources : ∀ name other, Site.module? site.modules name = some other →
      ∃ home, compileFrom site.modules name = .ok home ∧ other.BuiltAs home)
    (qualifier file : String) :
    ∃ links home, linkFrom (compileFrom site.modules) site.program = .ok links ∧
      LinkedBy (compileFrom site.modules) site.program links ∧
      Compilation.compileModule qualifier file links site.program = .ok home ∧
      site.BuiltAs home := by
  obtain ⟨links, linked, linkedBy⟩ := linkFrom_succeeds sound.importsNodup
    fun decl mem => by
      obtain ⟨other, isModule, known⟩ := sound.sources decl mem
      obtain ⟨home, compiled, built⟩ := sources _ other isModule
      obtain ⟨otherSound, otherModules⟩ := modsSound.module? isModule
      exact ⟨home, compiled, fun entry listed =>
        built.isSome_exported? otherSound otherModules (known entry listed)⟩
  obtain ⟨routines, compiled⟩ := Compilation.compileDefinitions_succeeds
    (fun defn mem => (sound.regular defn mem).1) .start []
  refine ⟨links, ⟨qualifier, file, routines, links⟩, linked, linkedBy,
    bind_eq_ok.mpr ⟨routines, compiled, rfl⟩, .intro (fun name =>
      ((site.program.importOf? name).bind fun decl =>
        (compileFrom site.modules decl.source).toOption).getD ⟨"", "", [], []⟩)
      compiled ?_ ?_⟩
  · intro name decl other imported isModule
    obtain ⟨home, isHome, built⟩ := sources _ other isModule
    rw [imported, Option.bind_some, isHome]
    exact built
  · intro name
    cases imported : site.program.importOf? name with
    | none => exact linkedBy.others name (Program.importOf?_eq_none.mp imported)
    | some decl =>
      obtain ⟨mem, listed⟩ := Program.importOf?_eq_some imported
      obtain ⟨src, isSource, exported⟩ := linkedBy.found decl mem
      obtain ⟨entry, entryMember, rfl⟩ := List.mem_map.mp listed
      rw [Option.bind_some, Option.bind_some, isSource]
      exact exported entry entryMember

theorem compileFrom_succeeds (sound : ModulesSound mods)
    (found : Site.module? mods name = some site) :
    ∃ home, compileFrom mods name = .ok home ∧ site.BuiltAs home := by
  induction mods generalizing name site with
  | nil => cases found
  | cons known older ih =>
    -- a module only imports older ones
    obtain ⟨-, here, -, olderSound⟩ := sound
    rw [Site.module?] at found
    rw [compileFrom]
    split at found
    next same =>
      cases found
      obtain ⟨links, home, linked, -, compiled, built⟩ :=
        builtAs_of_sources here olderSound (fun _ _ => ih olderSound) name known.file
      rw [if_pos same]
      exact ⟨home, bind_eq_ok.mpr ⟨links, linked, compiled⟩, built⟩
    next differ =>
      rw [if_neg differ]
      exact ih olderSound found

/-! ## Compiled forms that are kept -/

/-- The links of a program are what the kept forms of the modules export that it imports from. -/
structure Linked (library : Library) (program : Program)
    (links : Table (CompiledModule × Routine)) : Prop where
  found : ∀ declaration ∈ program.imports, ∃ source,
    library.compiled.get? declaration.source = some source ∧
      ∀ entry ∈ declaration.names, links.get? entry.1 = source.exported? entry.1
  others : ∀ name, name ∉ importedNames program.imports → links.get? name = none

/-- A compiled form is that of a module of the library, and what the module imports is kept. -/
structure Holds (library : Library) (name : String) (home : CompiledModule) : Prop where
  compiled : compileFrom library.analyzed name = .ok home
  imports : ∀ known, library.analyzed? name = some known → ∀ declaration ∈ known.program.imports,
    (library.compiled.get? declaration.source).isSome

/-- The modules of a library are sound, and the compiled forms that it keeps are theirs. -/
structure Proper (library : Library) : Prop where
  sound : ModulesSound library.analyzed
  holds : ∀ name home, library.compiled.get? name = some home → library.Holds name home

structure Furthers (before after : Library) : Prop where
  analyzed : after.analyzed = before.analyzed
  kept : ∀ name home, before.compiled.get? name = some home →
    after.compiled.get? name = some home
  proper : after.Proper

theorem Proper.furthers (proper : lib.Proper) : Furthers lib lib :=
  ⟨rfl, fun _ _ => id, proper⟩

theorem Furthers.trans {between : Library} (first : Furthers before between)
    (second : Furthers between after) : Furthers before after :=
  ⟨second.analyzed.trans first.analyzed, fun name home isKept =>
    second.kept name home (first.kept name home isKept), second.proper⟩

theorem Holds.mono (holds : before.Holds name home) (sound : ModulesSound after.analyzed)
    (suffix : before.analyzed <:+ after.analyzed)
    (kept : ∀ name home, before.compiled.get? name = some home →
      after.compiled.get? name = some home) : after.Holds name home := by
  obtain ⟨known, found⟩ := find?_of_compileFrom holds.compiled
  refine ⟨(compileFrom_of_suffix sound suffix found).trans holds.compiled,
    fun other isOther decl mem => ?_⟩
  cases (sound.find?_of_suffix suffix found).symm.trans isOther
  obtain ⟨src, isKept⟩ := Option.isSome_iff_exists.mp (holds.imports known found decl mem)
  rw [kept _ _ isKept]
  rfl

theorem Proper.insert (proper : lib.Proper) (holds : lib.Holds name home) :
    Furthers lib { lib with compiled := lib.compiled.insert name home } := by
  have kept : ∀ other kept, lib.compiled.get? other = some kept →
      (lib.compiled.insert name home).get? other = some kept := by
    intro other kept isKept
    rw [Table.get?_insert]
    split
    next same =>
      cases holds.compiled.symm.trans (same ▸ proper.holds other kept isKept).compiled
      rfl
    next => exact isKept
  refine ⟨rfl, kept, proper.sound, fun other home isKept => ?_⟩
  rw [Table.get?_insert] at isKept
  split at isKept
  next same =>
    cases isKept
    rw [same]
    exact holds.mono proper.sound suffix_rfl kept
  next => exact (proper.holds other home isKept).mono proper.sound suffix_rfl kept

theorem Proper.eq_of_kept (proper : lib.Proper) (suffix : mods <:+ lib.analyzed)
    (compiled : compileFrom mods name = .ok home) {kept : CompiledModule}
    (isKept : lib.compiled.get? name = some kept) : kept = home := by
  obtain ⟨_, found⟩ := find?_of_compileFrom compiled
  have same := (proper.holds name kept isKept).compiled
  rw [compileFrom_of_suffix proper.sound suffix found, compiled] at same
  exact (Except.ok.inj same).symm

theorem LinkedBy.linked (linkedBy : LinkedBy (compileFrom mods) prog links)
    (proper : lib.Proper) (suffix : mods <:+ lib.analyzed) (kept : ∀ decl ∈ prog.imports,
      (lib.compiled.get? decl.source).isSome) : lib.Linked prog links := by
  refine ⟨fun decl mem => ?_, linkedBy.others⟩
  obtain ⟨src, isSource, exported⟩ := linkedBy.found decl mem
  obtain ⟨other, isKept⟩ := Option.isSome_iff_exists.mp (kept decl mem)
  cases proper.eq_of_kept suffix isSource isKept
  exact ⟨src, isKept, exported⟩

/-- Modules of a list are compiled as they are without a library, and then they are kept. -/
def Compiles (modules : List Analyzed) (compile : String → Span → Loading CompiledModule) : Prop :=
  ∀ ⦃source : String⦄ ⦃home : CompiledModule⦄ ⦃before : Library⦄ (span : Span),
    compileFrom modules source = .ok home → before.Proper → modules <:+ before.analyzed →
    ∃ after, Loads (compile source span) before home after ∧ Furthers before after ∧
      after.compiled.get? source = some home

theorem Compiles.linkAll (compiles : Compiles mods compile)
    (linked : linkFrom (compileFrom mods) prog = .ok links) (proper : before.Proper)
    (suffix : mods <:+ before.analyzed) :
    ∃ after, Loads (linkAll compile prog) before links after ∧ Furthers before after ∧
      ∀ decl ∈ prog.imports, (after.compiled.get? decl.source).isSome := by
  unfold Library.linkAll
  unfold linkFrom at linked
  generalize prog.imports = imports, ([] : Table (CompiledModule × Routine)) = known at linked ⊢
  induction imports generalizing known before with
  | nil =>
    cases linked
    exact ⟨before, by simp, proper.furthers, by simp⟩
  | cons decl rest ih =>
    simp only [foldlM_cons, bind_eq_ok] at linked
    obtain ⟨middle, ⟨src, compiled, linkedFirst⟩, linkedRest⟩ := linked
    obtain ⟨between, loads, furthers, isKept⟩ := compiles decl.span compiled proper suffix
    obtain ⟨after, loadsRest, furthersRest, restKept⟩ :=
      ih furthers.proper (furthers.analyzed ▸ suffix) middle linkedRest
    refine ⟨after, ?_, furthers.trans furthersRest, List.forall_mem_cons.mpr ⟨?_, restKept⟩⟩
    · simp only [foldlM_cons, loads_bind, loads_lift]
      exact ⟨middle, between, ⟨src, between, loads, linkedFirst, rfl⟩, loadsRest⟩
    · rw [furthersRest.kept _ _ isKept]
      rfl

theorem compiles_compileAnalyzed (mods : List Analyzed) : Compiles mods (compileAnalyzed mods) := by
  induction mods with
  | nil =>
    intro src home before span compiled
    cases compiled
  | cons known older ih =>
    intro src home before span compiled proper suffix
    have whole := compiled
    rw [compileFrom] at compiled
    rw [compileAnalyzed]
    split at compiled
    next same =>
      subst same
      simp only [if_pos, loads_bind, loads_get]
      cases isCached : before.compiled.get? known.name with
      | some kept =>
        cases proper.eq_of_kept suffix whole isCached
        exact ⟨before, ⟨before, before, ⟨rfl, rfl⟩, by simp [isCached]⟩, proper.furthers, isCached⟩
      | none =>
        obtain ⟨links, linked, isHome⟩ := bind_eq_ok.mp compiled
        obtain ⟨after, loads, furthers, sources⟩ :=
          ih.linkAll linked proper ((suffix_cons known older).trans suffix)
        have holds : after.Holds known.name home := by
          have found : (known :: older).find? (fun other => other.name == known.name) =
              some known := by
            simp
          have sound := furthers.proper.sound
          rw [← furthers.analyzed] at suffix
          refine ⟨(compileFrom_of_suffix sound suffix found).trans whole, fun other isOther => ?_⟩
          cases (sound.find?_of_suffix suffix found).symm.trans isOther
          exact sources
        refine ⟨{ after with compiled := after.compiled.insert known.name home },
          ⟨before, before, ⟨rfl, rfl⟩, ?_⟩, furthers.trans (furthers.proper.insert holds),
          (Table.get?_insert _ _ _ _).trans (if_pos rfl)⟩
        simp only [isCached, loads_bind, loads_rethrow, loads_lift, loads_modify, loads_pure]
        exact ⟨home, after, ⟨links, after, loads, isHome, rfl⟩, (), _, rfl, rfl, rfl⟩
    next differ =>
      rw [if_neg differ]
      exact ih span compiled proper ((suffix_cons known older).trans suffix)

theorem compiles_compiledModule (opts : Settings) (mods : List Analyzed) :
    Compiles mods (compiledModule opts) := by
  intro src home before span compiled proper suffix
  simp only [compiledModule, loads_bind, loads_get]
  cases isCached : before.compiled.get? src with
  | some kept =>
    cases proper.eq_of_kept suffix compiled isCached
    exact ⟨before, ⟨before, before, ⟨rfl, rfl⟩, by simp [isCached]⟩, proper.furthers, isCached⟩
  | none =>
    obtain ⟨known, found⟩ := find?_of_compileFrom compiled
    obtain ⟨after, loads, further⟩ := compiles_compileAnalyzed before.analyzed span
      ((compileFrom_of_suffix proper.sound suffix found).trans compiled) proper suffix_rfl
    refine ⟨after, ⟨before, before, ⟨rfl, rfl⟩, ?_⟩, further⟩
    simp only [isCached, loads_bind, loads_get]
    exact ⟨known, before,
      loads_analyzeModule.mpr (.inl ⟨proper.sound.find?_of_suffix suffix found, rfl⟩), before,
      before, ⟨rfl, rfl⟩, loads⟩

/-- A sound program can be compiled while the modules that it was checked against are there. -/
theorem Proper.builtAs (proper : before.Proper) (sound : site.Sound)
    (suffix : site.modules <:+ before.analyzed) (opts : Settings) (file : String) :
    ∃ links home after, Loads (linkAll (compiledModule opts) site.program) before links after ∧
      Compilation.compileModule "" file links site.program = .ok home ∧ Furthers before after ∧
      LinkedBy (compileFrom site.modules) site.program links ∧ after.Linked site.program links ∧
      site.BuiltAs home := by
  have modsSound := proper.sound.of_suffix suffix
  obtain ⟨links, home, linked, linkedBy, compiled, built⟩ := builtAs_of_sources sound modsSound
    (fun _ _ => compileFrom_succeeds modsSound) "" file
  obtain ⟨after, loads, furthers, kept⟩ :=
    (compiles_compiledModule opts _).linkAll linked proper suffix
  exact ⟨links, home, after, loads, compiled, furthers, linkedBy,
    linkedBy.linked furthers.proper (furthers.analyzed ▸ suffix) kept, built⟩

end Library

/-- A program that is accepted is compiled, and the code of its main procedure comes from the
main procedure. -/
theorem Site.compiled_of_ofEntry? {opts : Library.Settings} {file : String}
    (accepted : ofEntry? opts file src = some site) :
    ∃ home main routine, Library.fresh (Library.loadEntry opts file src) = .ok home ∧
      site.BuiltAs home ∧ site.program.definition? "Main" = some main ∧ main.isMain = true ∧
      home.routines.get? "Main" = some routine ∧ Realizes site main home routine := by
  obtain ⟨loads, sound, modsSound, main, found, isMain⟩ := sound_of_ofEntry? accepted
  have proper : Library.Proper ⟨site.modules, []⟩ :=
    ⟨modsSound, fun _ _ isKept => by cases isKept⟩
  obtain ⟨links, home, after, linked, compiled, -, -, -, built⟩ :=
    proper.builtAs sound suffix_rfl opts file
  have loadsEntry : Library.Loads (Library.loadEntry opts file src) Library.empty home
      after := by
    simp only [Library.loadEntry, Library.compileEntry, Library.loads_bind, Library.loads_rethrow,
      Library.loads_lift]
    exact ⟨site.program, _, loads, links, after, linked, compiled, rfl⟩
  have isBuilt := built
  obtain ⟨sources, routines, -, -⟩ := built
  have own := Compilation.get?_compileDefinitions sound.nodup routines "Main"
  rw [← Program.definition?, found] at own
  obtain ⟨routine, isRoutine, fromMain⟩ := own
  exact ⟨home, main, routine, congrArg Prod.fst loadsEntry, isBuilt, found, isMain, isRoutine,
    isBuilt.realizes sound modsSound (mem_of_find?_eq_some found) fromMain⟩

end StoneBoard
