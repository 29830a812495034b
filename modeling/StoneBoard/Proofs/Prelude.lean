import StoneBoard.Proofs.Interfaces
import StoneBoard.Proofs.Links
import StoneBoard.Proofs.MoreNames
import StoneBoard.Proofs.Relinking
import StoneBoard.Proofs.Transparency

/-!
# The prelude

A module `Prelude` that is added to a catalogue does not change a program that is accepted without
it.  The program imports those names of the prelude that it neither defines nor imports, and it had
no use for them before.  So the modules that it imports are found as before, its definitions pass
the checks and get the same types, and its runs never come to the additional names.
-/

namespace StoneBoard

open List

variable {opts : Settings} {mods : List Analyzed}
variable {src name : String}

/-! ## Names that are imported -/

namespace Check

section Names

variable {src : String} {iface imported after : Interface} {names : List (String × Span)}

theorem nodup_importNames (differ : (imported.map Prod.fst).Nodup)
    (succeeds : names.foldlM (importName src iface) imported = .ok after) :
    (after.map Prod.fst).Nodup := by
  induction names generalizing imported with
  | nil =>
    cases succeeds
    exact differ
  | cons first rest ih =>
    obtain ⟨between, imports, succeedsRest⟩ := bind_eq_ok.mp succeeds
    obtain ⟨-, isNew, info, -, rfl⟩ := importName_eq_ok.mp imports
    have stillDifferent : (((first.1, info) :: imported).map Prod.fst).Nodup :=
      List.nodup_cons.mpr ⟨Table.get?_eq_none_iff.mp isNew, differ⟩
    exact ih stillDifferent succeedsRest

theorem exists_importNames (differ : (names.map Prod.fst).Nodup)
    (offered : ∀ entry ∈ names, entry.1 ≠ "Main" ∧ imported.get? entry.1 = none ∧
      (iface.get? entry.1).isSome) :
    ∃ after, names.foldlM (importName src iface) imported = .ok after := by
  induction names generalizing imported with
  | nil => exact ⟨imported, rfl⟩
  | cons first rest ih =>
    obtain ⟨⟨notMain, isNew, isOffered⟩, offeredRest⟩ := List.forall_mem_cons.mp offered
    obtain ⟨info, isOffered⟩ := Option.isSome_iff_exists.mp isOffered
    obtain ⟨otherNames, differentRest⟩ := List.nodup_cons.mp differ
    have imports : importName src iface imported first = .ok ((first.1, info) :: imported) :=
      importName_eq_ok.mpr ⟨notMain, isNew, info, isOffered, rfl⟩
    have stillNew : ∀ entry ∈ rest, entry.1 ≠ "Main" ∧
        Table.get? ((first.1, info) :: imported) entry.1 = none ∧
          (iface.get? entry.1).isSome := by
      intro entry mem
      obtain ⟨notMain, isNew, isOffered⟩ := offeredRest entry mem
      have otherName : entry.1 ≠ first.1 := fun same =>
        otherNames (same ▸ mem_map_of_mem mem)
      rw [Table.get?_cons, if_neg otherName]
      exact ⟨notMain, isNew, isOffered⟩
    obtain ⟨after, succeeds⟩ := ih differentRest stillNew
    exact ⟨after, bind_eq_ok.mpr ⟨_, imports, succeeds⟩⟩

end Names

end Check

namespace Library

variable {resolve : String → Span → Loading Interface} {prog : Program} {imported : Interface}
  {before after : Library} {name : String}

/-! ## Names that are offered -/

theorem nodup_importAll (loads : Loads (importAll resolve prog) before imported after) :
    (imported.map Prod.fst).Nodup := by
  have ensures : Ensures (fun _ => True) (fun _ => True)
      (fun names : Interface => (names.map Prod.fst).Nodup) (importAll resolve prog) := by
    refine .foldlM nodup_nil fun decl _ known differ => ?_
    refine .bind (preserves_of_leaves fun _ _ => trivial) fun iface _ => ?_
    exact .lift (fun _ _ => trivial) fun _ taken => Check.nodup_importNames differ taken
  exact (ensures.of_loads loads trivial).1

theorem isSome_of_imports (imports : Imports mods prog.imports [] imported) (name : String) :
    (imported.get? name).isSome ↔ name ∈ importedNames prog.imports := by
  by_cases listed : name ∈ importedNames prog.imports
  · obtain ⟨decl, mem, isListed⟩ := List.mem_flatMap.mp listed
    obtain ⟨entry, isEntry, rfl⟩ := List.mem_map.mp isListed
    obtain ⟨_, -, told⟩ := imports.sources decl mem
    simp [listed, (told entry isEntry).1]
  · simp [listed, imports.others name listed]

theorem nodup_exports (differ : (imported.map Prod.fst).Nodup) (returns : Inference.Returns)
    (prog : Program) : ((exports imported returns prog).map Prod.fst).Nodup := by
  unfold exports
  generalize prog.definitions.filter _ = own
  induction own generalizing imported with
  | nil => exact differ
  | cons defn rest ih => exact ih (Table.nodup_insert differ _ _)

theorem Derived.nodup (derived : Derived opts mods) :
    ∀ known ∈ mods, (known.interface.map Prod.fst).Nodup := by
  induction mods with
  | nil => exact forall_mem_nil _
  | cons first older ih =>
    obtain ⟨⟨src, prog, -, -, analyzed⟩, olderDerived⟩ := derived
    refine List.forall_mem_cons.mpr ⟨?_, ih olderDerived⟩
    obtain ⟨imported, imports, concluded⟩ := loads_analyzeProgram.mp (analyzed empty)
    obtain ⟨-, returns, isInterface, -⟩ := conclude_eq_ok concluded
    exact isInterface ▸ nodup_exports (nodup_importAll imports) _ _

theorem reserved_of_find? (sound : ModulesSound mods) {known : Analyzed}
    (found : mods.find? (fun known => known.name == src) = some known)
    (reserved : name = "Main" ∨ Builtin.isDefined name = true) :
    known.interface.get? name = none := by
  obtain ⟨site, isModule, offers⟩ := sound.offers found
  rw [← Option.map_eq_none_iff (f := RoutineInfo.shape), offers name]
  split
  next => rfl
  next notMain =>
    rcases reserved with isMain | isBuiltin
    · exact (notMain isMain).elim
    · obtain ⟨siteSound, modsSound⟩ := sound.module? isModule
      rw [siteSound.reserved modsSound isBuiltin]
      rfl

/-! ## What is missing -/

def missingImport (prelude : Interface) (program : Program) : Import :=
  let missing := (prelude.sorted.map Prod.fst).filter fun name =>
    (program.definition? name).isNone && !importsName program name
  { source := preludeName, names := missing.map fun name => (name, .nowhere), span := .nowhere }

theorem withPrelude_eq_missingImport (prelude : Interface) (prog : Program) :
    withPrelude prelude prog =
      { prog with imports := missingImport prelude prog :: prog.imports } := by
  simp only [withPrelude, missingNames_eq, missingImport]

theorem importsName_iff : importsName prog name = true ↔ name ∈ importedNames prog.imports := by
  simp [importsName, importedNames]

theorem names_missingImport (prelude : Interface) (prog : Program) :
    (missingImport prelude prog).names.map Prod.fst =
      (prelude.sorted.map Prod.fst).filter fun name =>
        (prog.definition? name).isNone && !importsName prog name := by
  rw [missingImport, map_map]
  exact map_id _

theorem mem_missingImport {prelude : Interface} :
    name ∈ (missingImport prelude prog).names.map Prod.fst ↔
      (prelude.get? name).isSome ∧ prog.definition? name = none ∧
        name ∉ importedNames prog.imports := by
  have offered : name ∈ prelude.sorted.map Prod.fst ↔ (prelude.get? name).isSome := by
    rw [(Table.perm_sorted prelude).mem_iff, Option.isSome_iff_ne_none, Ne,
      Table.get?_eq_none_iff, not_not]
  rw [names_missingImport, mem_filter, offered, ← importsName_iff, Bool.and_eq_true,
    Option.isNone_iff_eq_none, Bool.not_eq_true', Bool.not_eq_true]

theorem missingImport_congr (prelude : Interface) {other : Program}
    (sameImports : other.imports = prog.imports)
    (keeps : Inference.KeepsDefinitions prog.definitions other.definitions) :
    missingImport prelude other = missingImport prelude prog := by
  have sameDefined (name : String) :
      (other.definition? name).isNone = (prog.definition? name).isNone := by
    have related := keeps.find? name
    rw [← Program.definition?, ← Program.definition?] at related
    generalize prog.definition? name = first, other.definition? name = second at related ⊢
    cases related <;> rfl
  simp only [missingImport, importsName, sameImports, sameDefined]

section Prelude

variable {opts : Settings} {mods : List Analyzed} {prelude : Analyzed}
  (derived : Derived opts mods) (sound : ModulesSound mods)
  (found : mods.find? (fun known => known.name == preludeName) = some prelude)

include derived sound found

/-- What is missing can be imported, and the program has no other use for it. -/
theorem spare_of_find? {text : Program} {others : List Analyzed}
    (imports : Imports others text.imports [] imported) :
    ∃ extra, Check.importNames prelude.interface [] (missingImport prelude.interface text) =
        .ok extra ∧ (∀ name ∈ importedNames text.imports, extra.get? name = none) ∧
      extra.Spare imported text := by
  have differ : ((missingImport prelude.interface text).names.map Prod.fst).Nodup := by
    have isNodup := derived.nodup prelude (mem_of_find?_eq_some found)
    rw [names_missingImport]
    exact ((Table.perm_sorted prelude.interface).nodup_iff.mpr isNodup).filter _
  have offered : ∀ entry ∈ (missingImport prelude.interface text).names,
      entry.1 ≠ "Main" ∧ Table.get? ([] : Interface) entry.1 = none ∧
        (prelude.interface.get? entry.1).isSome := by
    intro entry mem
    obtain ⟨isOffered, -⟩ := mem_missingImport.mp (mem_map_of_mem mem)
    refine ⟨fun isMain => ?_, rfl, isOffered⟩
    rw [reserved_of_find? sound found (.inl isMain)] at isOffered
    cases isOffered
  obtain ⟨extra, taken⟩ := Check.exists_importNames differ offered
  obtain ⟨-, -, known⟩ := Check.importNames_eq_ok taken
  have absent (name : String)
      (notMissing : name ∉ (missingImport prelude.interface text).names.map Prod.fst) :
      extra.get? name = none := by
    rw [known, if_neg notMissing]
    rfl
  have apart : ∀ name ∈ importedNames text.imports, extra.get? name = none :=
    fun name isImported => absent name fun missing => (mem_missingImport.mp missing).2.2 isImported
  refine ⟨extra, taken, apart, fun name isSome => ?_, fun defn mem => ?_,
    fun name isBuiltin => ?_⟩
  · exact apart name ((isSome_of_imports imports name).mp isSome)
  · refine absent defn.name fun missing => ?_
    obtain ⟨-, undefined, -⟩ := mem_missingImport.mp missing
    exact List.find?_eq_none.mp undefined defn mem (beq_self_eq_true _)
  · refine absent name fun missing => ?_
    obtain ⟨isOffered, -⟩ := mem_missingImport.mp missing
    rw [reserved_of_find? sound found (.inr isBuiltin)] at isOffered
    cases isOffered

end Prelude

end Library

/-! ## Catalogues with a prelude -/

namespace Catalogue

open Library (preludeName)

/-- A catalogue that differs from another one, which has no prelude, in the prelude only. -/
structure AddsPrelude (plain rich : Catalogue) : Prop where
  absent : plain.offers preludeName = false
  others : ∀ name, name ≠ preludeName → rich.supplies.get? name = plain.supplies.get? name

theorem addsPrelude_addText {plain : Catalogue} (absent : plain.offers preludeName = false)
    (src : String) : plain.AddsPrelude (plain.addText preludeName src) := by
  refine ⟨absent, fun name notPrelude => ?_⟩
  rw [addText, Table.get?_insert, if_neg notPrelude]

theorem offers_of_text {catalogue : Catalogue} {file : String}
    (supplied : catalogue.supplies.get? name = some (.text file src)) :
    catalogue.offers name = true := by
  rw [offers, supplied]

end Catalogue

namespace Library

variable {plain rich : Catalogue} {typecheck : Bool}
variable {file src : String} {prog : Program}
variable {last : Library}

/-- Modules that are found without a prelude do not import it. -/
theorem Derived.of_addsPrelude (adds : plain.AddsPrelude rich)
    (derived : Derived ⟨plain, typecheck⟩ mods) : Derived ⟨rich, typecheck⟩ mods := by
  induction mods with
  | nil => trivial
  | cons known older ih =>
    obtain ⟨⟨src, prog, supplied, read, analyzed⟩, olderDerived⟩ := derived
    have notPrelude : known.name ≠ preludeName := by
      intro isPrelude
      have offered := Catalogue.offers_of_text supplied
      rw [isPrelude, adds.absent] at offered
      cases offered
    exact ⟨⟨src, prog, (adds.others known.name notPrelude).trans supplied, read, analyzed⟩,
      ih olderDerived⟩

theorem loads_analyzeEntry_of_absent {before after : Library}
    (absent : opts.catalogue.offers preludeName = false)
    (loads : Loads (analyzeEntry opts file src) before prog after) :
    ∃ text iface, Program.ofText src = .ok text ∧
      Loads (analyzeProgram opts true (Library.interface opts [Path.moduleName file])
        text) before (prog, iface) after := by
  obtain ⟨text, _, iface, _, read, completed, analyzed⟩ := loads_analyzeEntry_iff.mp loads
  cases completed with
  | plain _ => exact ⟨text, iface, read, analyzed⟩
  | enriched hasPrelude _ =>
    rw [absent, Bool.and_false] at hasPrelude
    cases hasPrelude

/-! ## Analysis -/

/-- A program that is accepted without a prelude is accepted with it, and gets the import of what
is missing. -/
theorem loads_analyzeEntry_of_addsPrelude (adds : plain.AddsPrelude rich)
    (notPrelude : Path.moduleName file ≠ preludeName)
    (analyzed : Loads (analyzeEntry ⟨plain, typecheck⟩ file src) empty prog last)
    {prelude : Analyzed} {between : Library}
    (offered : Loads (analyzeModule ⟨rich, typecheck⟩ [Path.moduleName file] preludeName .nowhere)
      empty prelude between) : ∃ after, Loads (analyzeEntry ⟨rich, typecheck⟩ file src) empty
      (withPrelude prelude.interface prog) after := by
  obtain ⟨text, iface, read, analyzedText⟩ := loads_analyzeEntry_of_absent adds.absent analyzed
  have plainFaithful : last.Faithful ⟨plain, typecheck⟩ [Path.moduleName file] :=
    (preserves_analyzeProgram (preserves_interface _ (List.Subset.refl _)) text).of_loads
      analyzedText (faithful_empty _)
  have richFaithful : between.Faithful ⟨rich, typecheck⟩ [Path.moduleName file] :=
    (preserves_interface _ (List.Subset.refl _) _ _).of_loads (loads_interface offered)
      (faithful_empty _)
  obtain ⟨imported, imports, concluded⟩ := loads_analyzeProgram.mp
    ((lookup_of_loads (resolves_interface hereditary_true _) analyzedText trivial trivial).2 empty)
  have isKnown := analyzed?_of_loads offered
  obtain ⟨extra, importsMissing, apart, spare⟩ := spare_of_find? richFaithful.derived
    richFaithful.sound isKnown (imports_of_lookup imports plainFaithful.sound)
  -- the other imports come after those from the prelude, and find the modules that they found
  obtain ⟨after, importsRest, -⟩ := loads_imports_of_lookup imports
    (fun decl _ known found lib faithful => by
      obtain ⟨after, loads⟩ := Faithful.reload (plainFaithful.derived.of_addsPrelude adds)
        plainFaithful.sound plainFaithful.absent found decl.span faithful
      exact ⟨after, loads_interface loads,
        (preserves_interface _ (List.Subset.refl _) _ _).of_loads (loads_interface loads)
          faithful⟩)
    apart richFaithful
  have importsAll : Loads (importAll (Library.interface ⟨rich, typecheck⟩ [Path.moduleName file])
      (withPrelude prelude.interface text)) between (imported ++ extra) after := by
    rw [withPrelude_eq_missingImport, importAll, foldlM_cons]
    simp only [loads_bind, loads_lift]
    exact ⟨extra, between, ⟨prelude.interface, between,
      loads_interface (loads_analyzeModule.mpr (.inl ⟨isKnown, rfl⟩)), importsMissing, rfl⟩,
      importsRest⟩
  have concludedRich : conclude ⟨rich, typecheck⟩ true imported text = .ok (prog, iface) :=
    concluded
  obtain ⟨larger, concludedAll⟩ := spare.conclude concludedRich
    (missingImport prelude.interface text :: text.imports)
  rw [← withPrelude_eq_missingImport] at concludedAll
  obtain ⟨-, sameImports, keeps⟩ := checked_of_conclude concluded
  have sameProgram : withPrelude prelude.interface prog =
      { prog with imports := missingImport prelude.interface text :: text.imports } := by
    rw [withPrelude_eq_missingImport, missingImport_congr _ sameImports keeps, sameImports]
  rw [← sameProgram] at concludedAll
  have isOffered : rich.offers preludeName = true := by
    rcases loads_analyzeModule.mp offered with ⟨isOld, -⟩ | ⟨-, -, _, isText, -⟩
    · cases isOld
    · exact Catalogue.offers_of_text (Catalogue.textOf_eq_ok.mp isText)
  have hasPrelude : (Path.moduleName file != preludeName && rich.offers preludeName) = true := by
    rw [isOffered, Bool.and_true, bne_iff_ne]
    exact notPrelude
  exact ⟨after, loads_analyzeEntry_iff.mpr ⟨text, _, larger, between, read,
    .enriched hasPrelude (loads_interface offered),
    loads_analyzeProgram.mpr ⟨_, importsAll, concludedAll⟩⟩⟩

theorem undefined_of_imported (absent : plain.offers preludeName = false)
    (analyzed : Loads (analyzeEntry ⟨plain, typecheck⟩ file src) empty prog last)
    (imported : name ∈ importedNames prog.imports) : prog.definition? name = none := by
  obtain ⟨text, iface, -, analyzedText⟩ := loads_analyzeEntry_of_absent absent analyzed
  obtain ⟨grows, lookups⟩ :=
    lookup_of_loads (resolves_interface hereditary_true _) analyzedText trivial trivial
  obtain ⟨known, imports, concluded⟩ := loads_analyzeProgram.mp (lookups empty)
  obtain ⟨checked, sameImports, keeps⟩ := checked_of_conclude concluded
  obtain ⟨-, -, isNew, -⟩ := Check.checkDefinitions_eq_ok checked
  rw [sameImports, ← isSome_of_imports (imports_of_lookup imports grows.sound)] at imported
  refine List.find?_eq_none.mpr fun defn mem isNamed => ?_
  obtain ⟨orig, isOriginal, keepsOne⟩ := keeps.exists_original mem
  have unknown := (isNew orig isOriginal).2
  rw [← keepsOne.name, beq_iff_eq.mp isNamed] at unknown
  rw [unknown] at imported
  cases imported

/-! ## Compiled programs -/

theorem Carries.isSome_routine {lib : Library} {home : CompiledModule}
    (carries : lib.Carries prog home) (name : String) :
    (home.routines.get? name).isSome = (prog.definition? name).isSome := by
  obtain ⟨_, _, compiles⟩ := carries.compiled
  have own := Compilation.routine_of_compileModule compiles carries.nodup name
  generalize prog.definition? name = defn, home.routines.get? name = routine at own ⊢
  cases own <;> rfl

/-- A program that has been loaded, and the library in which this has been done. -/
structure Loaded (settings : Settings) (file source : String) (program : Program)
    (compiled : CompiledModule) (library : Library) : Prop where
  loaded : fresh (loadEntry settings file source) = .ok compiled
  trusted : library.Trusted settings
  carries : library.Carries program compiled
  isEntry : compiled.IsEntry source file
  reserved : ∀ name, Builtin.isDefined name = true → compiled.exported? name = none

theorem loaded_of_analyzeEntry
    (analyzed : fresh (analyzeEntry opts file src) = .ok prog) :
    ∃ compiled lib, Loaded opts file src prog compiled lib := by
  obtain ⟨mods, accepted⟩ := Site.ofEntry?_iff_analyzeEntry.mpr analyzed
  obtain ⟨compiled, _, _, loaded, -, -, -, -, realizes⟩ := Site.compiled_of_ofEntry? accepted
  have loads : Loads (loadEntry opts file src) empty compiled _ := Prod.ext loaded rfl
  obtain ⟨-, other, _, _, analyzes, carries, -⟩ := consistent_empty.carries_of_loadEntry loads
  cases analyzed.symm.trans (congrArg Prod.fst analyzes)
  have trusted := ((preserves_analyzeEntry (trusted_interface opts _)).bind
    (preserves_compileEntry fun name span =>
      (transparent_compiledModule opts name span).preserves)).of_loads loads trusted_empty
  exact ⟨compiled, _, loaded, trusted, carries, isEntry_of_loadEntry loaded, fun name isBuiltin =>
    realizes.linked.absent (realizes.linked.reserved isBuiltin)⟩

namespace Loaded

variable {file src : String} {prelude : Interface} {prog : Program}
  {compiled enriched : CompiledModule} {lib richLibrary : Library}

variable (loaded : Loaded ⟨plain, typecheck⟩ file src prog compiled lib)
  (richLoaded : Loaded ⟨rich, typecheck⟩ file src (withPrelude prelude prog) enriched
    richLibrary)

include loaded richLoaded
variable {name : String}

theorem eq_relink : enriched = compiled.relink enriched.links := by
  obtain ⟨_, _, compiles⟩ := loaded.carries.compiled
  obtain ⟨_, _, richCompiles⟩ := richLoaded.carries.compiled
  obtain ⟨routines, compiledAll, isCompiled⟩ := compileModule_eq_ok compiles
  obtain ⟨richRoutines, richCompiledAll, isEnriched⟩ := compileModule_eq_ok richCompiles
  cases compiledAll.symm.trans richCompiledAll
  have sameRoutines : enriched.routines = compiled.routines := by rw [isCompiled, isEnriched]
  have sameFile := richLoaded.isEntry.file.trans loaded.isEntry.file.symm
  have sameQualifier := richLoaded.isEntry.unqualified.trans loaded.isEntry.unqualified.symm
  rw [CompiledModule.relink_of_unqualified loaded.isEntry.unqualified]
  cases enriched
  cases sameRoutines
  cases sameFile
  cases sameQualifier
  rfl

theorem routines_eq : enriched.routines = compiled.routines := by
  rw [loaded.eq_relink richLoaded, CompiledModule.routines_relink]

theorem links_eq (adds : plain.AddsPrelude rich) (imported : name ∈ importedNames prog.imports) :
    Table.get? enriched.links name = Table.get? compiled.links name := by
  obtain ⟨decl, mem, listed⟩ := List.mem_flatMap.mp imported
  obtain ⟨entry, isEntry, rfl⟩ := List.mem_map.mp listed
  have richMember : decl ∈ (withPrelude prelude prog).imports := mem_cons_of_mem _ mem
  obtain ⟨home, isKept, links⟩ := loaded.carries.linked.found decl mem
  obtain ⟨richHome, richKept, richLinks⟩ := richLoaded.carries.linked.found decl richMember
  obtain ⟨_, found, -⟩ := loaded.carries.offered decl mem
  obtain ⟨_, richFound, -⟩ := richLoaded.carries.offered decl richMember
  have sameHome := (loaded.trusted.derived.of_addsPrelude adds).compileFrom_eq loaded.trusted.sound
    richLoaded.trusted.derived richLoaded.trusted.sound found richFound
  rw [(loaded.trusted.holds _ _ isKept).compiled,
    (richLoaded.trusted.holds _ _ richKept).compiled] at sameHome
  cases sameHome
  rw [links entry isEntry, richLinks entry isEntry]

theorem addsLinks (adds : plain.AddsPrelude rich) : Machine.AddsLinks enriched.links compiled := by
  constructor
  case kept =>
    intro name link isLink
    have imported : name ∈ importedNames prog.imports := by
      by_contra notImported
      rw [loaded.carries.linked.others name notImported] at isLink
      cases isLink
    rw [loaded.links_eq richLoaded adds imported, isLink]
  case reserved =>
    intro name isBuiltin
    have unknown := richLoaded.reserved name isBuiltin
    unfold CompiledModule.exported? at unknown
    split at unknown
    next => cases unknown
    next => exact unknown

theorem exported?_of_definition (defined : (prog.definition? name).isSome) :
    ∃ routine, compiled.exported? name = some (compiled, routine) ∧
      enriched.exported? name = some (enriched, routine) := by
  rw [← loaded.carries.isSome_routine, Option.isSome_iff_exists] at defined
  obtain ⟨routine, isRoutine⟩ := defined
  refine ⟨routine, ?_, ?_⟩
  · rw [CompiledModule.exported?, isRoutine]
  · rw [CompiledModule.exported?, loaded.routines_eq richLoaded, isRoutine]

theorem exported?_of_import (adds : plain.AddsPrelude rich)
    (imported : name ∈ importedNames prog.imports) (undefined : prog.definition? name = none) :
    ∃ link, compiled.exported? name = some link ∧ enriched.exported? name = some link := by
  have noRoutine : compiled.routines.get? name = none := by
    rw [← Option.not_isSome_iff_eq_none, loaded.carries.isSome_routine, undefined]
    exact Bool.false_ne_true
  obtain ⟨link, isLink⟩ := Option.isSome_iff_exists.mp
    (loaded.carries.isLinked loaded.trusted.toConsistent imported)
  refine ⟨link, ?_, ?_⟩
  · rw [CompiledModule.exported?, noRoutine, isLink]
  · rw [CompiledModule.exported?, loaded.routines_eq richLoaded, noRoutine,
      loaded.links_eq richLoaded adds imported, isLink]

end Loaded

end Library

open Library

/-- A prelude is a conservative extension.  Take a program that is accepted without a prelude, and
a prelude that can be analyzed while the program is at work.  With it, the program is accepted as
well, with the import of what is missing.  All that it defines or imports itself is what it was,
also if the prelude has routines of the same names.  And from every scene, with every limit on
calls and after every number of steps, it comes to the same end. -/
theorem prelude_is_conservative {plain rich : Catalogue} {typecheck : Bool}
    {file source : String} {program : Program} {prelude : Analyzed}
    (adds : plain.AddsPrelude rich) (notPrelude : Path.moduleName file ≠ preludeName)
    (analyzed : fresh (analyzeEntry ⟨plain, typecheck⟩ file source) = .ok program)
    (offered : fresh (analyzeModule ⟨rich, typecheck⟩ [Path.moduleName file] preludeName
      .nowhere) = .ok prelude) :
    fresh (analyzeEntry ⟨rich, typecheck⟩ file source) =
        .ok (withPrelude prelude.interface program) ∧
      ∃ compiled enriched,
        fresh (loadEntry ⟨plain, typecheck⟩ file source) = .ok compiled ∧
        fresh (loadEntry ⟨rich, typecheck⟩ file source) = .ok enriched ∧
        (∀ name, (program.definition? name).isSome → ∃ routine,
          compiled.exported? name = some (compiled, routine) ∧
          enriched.exported? name = some (enriched, routine)) ∧
        (∀ name, importsName program name = true → ∃ link,
          compiled.exported? name = some link ∧ enriched.exported? name = some link) ∧
        ∀ maxDepth budget scene,
          enriched.run maxDepth budget scene = compiled.run maxDepth budget scene := by
  have loads : Loads (analyzeEntry ⟨plain, typecheck⟩ file source) empty program _ :=
    Prod.ext analyzed rfl
  obtain ⟨_, richLoads⟩ := loads_analyzeEntry_of_addsPrelude adds notPrelude loads
    (Prod.ext offered rfl)
  have richAnalyzed : fresh (analyzeEntry ⟨rich, typecheck⟩ file source) =
      .ok (withPrelude prelude.interface program) := congrArg Prod.fst richLoads
  obtain ⟨compiled, _, loaded⟩ := loaded_of_analyzeEntry analyzed
  obtain ⟨enriched, _, richLoaded⟩ := loaded_of_analyzeEntry richAnalyzed
  refine ⟨richAnalyzed, compiled, enriched, loaded.loaded, richLoaded.loaded,
    fun name defined => ?_, fun name imported => ?_, fun maxDepth budget scene => ?_⟩
  · exact loaded.exported?_of_definition richLoaded defined
  · rw [importsName_iff] at imported
    exact loaded.exported?_of_import richLoaded adds imported
      (undefined_of_imported adds.absent loads imported)
  · obtain ⟨modules, accepted⟩ := Site.ofEntry?_iff_analyzeEntry.mpr analyzed
    obtain ⟨_, main, isLoaded, isMain, expected⟩ := Site.failsAsExpected accepted
    cases loaded.loaded.symm.trans isLoaded
    rw [loaded.eq_relink richLoaded]
    exact loaded.isEntry.run_relink isMain (loaded.addsLinks richLoaded adds)
      (expected maxDepth scene) budget

def guardedSource : String :=
  "from Walk import (east)
   function two() \x7b return (2) \x7d
   procedure Main() \x7b
     (a, b) := east(two())
     return (b)
   \x7d"

def rivalCatalogue : Catalogue :=
  walkSettings.catalogue.addText preludeName
    "function two() \x7b return (Red) \x7d
     function east(n) \x7b return (n) \x7d
     function three() \x7b return (3) \x7d"

/-- The program does not see the functions of the prelude. -/
theorem guarded_program_ignores_rivals :
    ∃ program prelude compiled enriched,
      fresh (analyzeEntry walkSettings "main.gbs" guardedSource) = .ok program ∧
      fresh (analyzeModule ⟨rivalCatalogue, true⟩ ["main"] preludeName .nowhere) = .ok prelude ∧
      fresh (loadEntry walkSettings "main.gbs" guardedSource) = .ok compiled ∧
      fresh (loadEntry ⟨rivalCatalogue, true⟩ "main.gbs" guardedSource) = .ok enriched ∧
      (∃ routine, enriched.exported? "two" = some (enriched, routine)) ∧
      (∃ link, compiled.exported? "east" = some link ∧ enriched.exported? "east" = some link) ∧
      ∀ maxDepth budget scene,
        enriched.run maxDepth budget scene = compiled.run maxDepth budget scene := by
  have accepted : ((fresh (analyzeEntry walkSettings "main.gbs" guardedSource)).toOption.map
      fun program => ((program.definition? "two").isSome, importsName program "east")) =
        some (true, true) := by
    decide +kernel
  have offered : (fresh (analyzeModule ⟨rivalCatalogue, true⟩ ["main"] preludeName
      .nowhere)).isOk = true := by
    decide +kernel
  have adds : walkSettings.catalogue.AddsPrelude rivalCatalogue :=
    Catalogue.addsPrelude_addText (by decide +kernel) _
  have notPrelude : Path.moduleName "main.gbs" ≠ preludeName := by decide +kernel
  have isNamed : Path.moduleName "main.gbs" = "main" := by decide +kernel
  cases analyzed : fresh (analyzeEntry walkSettings "main.gbs" guardedSource) with
  | error _ =>
    rw [analyzed] at accepted
    cases accepted
  | ok program =>
    cases known : fresh (analyzeModule ⟨rivalCatalogue, true⟩ ["main"] preludeName .nowhere) with
    | error _ =>
      rw [known] at offered
      cases offered
    | ok prelude =>
      rw [analyzed] at accepted
      obtain ⟨defines, imports⟩ := Prod.mk.inj (Option.some.inj accepted)
      obtain ⟨-, compiled, enriched, loaded, richLoaded, locals, links, runs⟩ :=
        prelude_is_conservative adds notPrelude analyzed (isNamed ▸ known)
      obtain ⟨routine, -, isRoutine⟩ := locals "two" defines
      exact ⟨program, prelude, compiled, enriched, rfl, rfl, loaded, richLoaded,
        ⟨routine, isRoutine⟩, links "east" imports, runs⟩

end StoneBoard
