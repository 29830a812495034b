import Mathlib.Data.List.Chain
import StoneBoard.Proofs.Faithful

/-!
# Which modules import which

The texts of a catalogue say which modules import which.  A first program is accepted only if all
that can be reached from it is there, and no module that can be reached imports itself, directly or
not.  A cycle does not keep the analysis from coming to an end.
-/

namespace StoneBoard

open List

/-! ## Imports -/

def importedModules (source : String) : List String :=
  match Program.ofText source with
  | .ok program => program.imports.map Import.source
  | .error _ => []

namespace Catalogue

def importsOf (catalogue : Catalogue) (name : String) : List String :=
  match catalogue.supplies.get? name with
  | some (.text _ source) => importedModules source
  | _ => []

def entryImports (catalogue : Catalogue) (file source : String) : List String :=
  if Path.moduleName file != Library.preludeName && catalogue.offers Library.preludeName then
    Library.preludeName :: importedModules source
  else importedModules source

def Imports (catalogue : Catalogue) (name other : String) : Prop := other ∈ catalogue.importsOf name

instance (catalogue : Catalogue) : DecidableRel catalogue.Imports := fun _ _ =>
  inferInstanceAs (Decidable (_ ∈ _))

def Reachable (catalogue : Catalogue) (file source name : String) : Prop :=
  ∃ first ∈ catalogue.entryImports file source,
    Relation.ReflTransGen catalogue.Imports first name

end Catalogue

namespace Library

variable {opts : Settings}
variable {known : Analyzed} {other : String} {mods : List Analyzed}
variable {older : List Analyzed} {file src : String} {annotated : Program}
  {before after : Library}

/-! ## Modules only import older ones -/

theorem Derived.older_of_imports (derived : Derived opts (known :: older))
    (imports : opts.catalogue.Imports known.name other) :
    ∃ module ∈ older, module.name = other := by
  obtain ⟨src, prog, supplied, read, analyzed⟩ := derived.1
  simp only [Catalogue.Imports, Catalogue.importsOf, supplied, importedModules, read,
    mem_map] at imports
  obtain ⟨decl, mem, rfl⟩ := imports
  obtain ⟨module, found⟩ := found_of_lookup (analyzed empty) mem
  exact ⟨module, mem_of_find?_eq_some found, by simpa using find?_some found⟩

theorem Derived.older_of_transGen (derived : Derived opts (known :: older))
    (imports : Relation.TransGen opts.catalogue.Imports known.name other) :
    ∃ module ∈ older, module.name = other := by
  induction imports with
  | single imports => exact derived.older_of_imports imports
  | tail _ imports ih =>
    obtain ⟨middle, isOlder, rfl⟩ := ih
    obtain ⟨before, oldest, rfl⟩ := append_of_mem isOlder
    have middleDerived := derived.2.of_suffix (suffix_append before (middle :: oldest))
    obtain ⟨module, isOldest, named⟩ := middleDerived.older_of_imports imports
    exact ⟨module, mem_append_right _ (mem_cons_of_mem _ isOldest), named⟩

/-- Among derived modules there are no cycles. -/
theorem Derived.not_transGen_self (derived : Derived opts mods)
    (sound : ModulesSound mods) (mem : known ∈ mods) :
    ¬ Relation.TransGen opts.catalogue.Imports known.name known.name := by
  intro cycle
  obtain ⟨before, older, rfl⟩ := append_of_mem mem
  have suffix := suffix_append before (known :: older)
  obtain ⟨module, isOlder, named⟩ := (derived.of_suffix suffix).older_of_transGen cycle
  exact (sound.of_suffix suffix).1 module isOlder named

theorem Derived.mem_of_reflTransGen (derived : Derived opts mods) (mem : known ∈ mods)
    (imports : Relation.ReflTransGen opts.catalogue.Imports known.name other) :
    ∃ module ∈ mods, module.name = other := by
  rcases Relation.reflTransGen_iff_eq_or_transGen.mp imports with rfl | imports
  · exact ⟨known, mem, rfl⟩
  · obtain ⟨before, older, rfl⟩ := append_of_mem mem
    have suffix := suffix_append before (known :: older)
    obtain ⟨module, isOlder, named⟩ := (derived.of_suffix suffix).older_of_transGen imports
    exact ⟨module, mem_append_right _ (mem_cons_of_mem _ isOlder), named⟩

theorem Derived.supplied (derived : Derived opts mods) (mem : known ∈ mods) :
    ∃ src, opts.catalogue.supplies.get? known.name = some (.text known.file src) := by
  obtain ⟨before, older, rfl⟩ := append_of_mem mem
  obtain ⟨src, prog, supplied, -⟩ := (derived.of_suffix (suffix_append before (known :: older))).1
  exact ⟨src, supplied⟩

/-! ## First programs -/

/-- A first program is analyzed like a module that imports the prelude. -/
theorem loads_analyzeEntry_of_text
    (loads : Loads (analyzeEntry opts file src) before annotated after)
    (faithful : before.Faithful opts [Path.moduleName file]) : ∃ prog iface between,
      prog.imports.map Import.source = opts.catalogue.entryImports file src ∧
      between.Faithful opts [Path.moduleName file] ∧
      Loads (analyzeProgram opts true (Library.interface opts [Path.moduleName file]) prog)
        between (annotated, iface) after := by
  obtain ⟨text, extended, iface, between, read, completed, analyzed⟩ :=
    loads_analyzeEntry_iff.mp loads
  refine ⟨extended, iface, between, ?_, ?_, analyzed⟩
  · cases completed with
    | plain noPrelude => simp [Catalogue.entryImports, noPrelude, importedModules, read]
    | enriched hasPrelude _ =>
      simp [Catalogue.entryImports, hasPrelude, importedModules, read, withPrelude]
  · cases completed with
    | plain _ => exact faithful
    | enriched _ resolved =>
      exact (preserves_interface opts (List.Subset.refl _) _ _).of_loads resolved faithful

/-- All that can be reached from a first program is in the library that its analysis leaves. -/
theorem mem_of_reachable {name : String}
    (loads : Loads (analyzeEntry opts file src) before annotated after)
    (faithful : before.Faithful opts [Path.moduleName file])
    (reachable : opts.catalogue.Reachable file src name) :
    after.Faithful opts [Path.moduleName file] ∧
      ∃ module ∈ after.analyzed, module.name = name := by
  obtain ⟨prog, iface, between, sources, betweenFaithful, analyzed⟩ :=
    loads_analyzeEntry_of_text loads faithful
  obtain ⟨first, isFirst, path⟩ := reachable
  have resolves := preserves_interface opts (List.Subset.refl [Path.moduleName file])
  have afterFaithful : after.Faithful opts [Path.moduleName file] :=
    (preserves_analyzeProgram resolves prog).of_loads analyzed betweenFaithful
  have lookups := (lookup_of_loads (resolves_interface hereditary_true [Path.moduleName file])
    analyzed betweenFaithful.sound trivial).2 empty
  rw [← sources, mem_map] at isFirst
  obtain ⟨decl, mem, rfl⟩ := isFirst
  obtain ⟨module, found⟩ := found_of_lookup lookups mem
  have named : module.name = decl.source := by simpa using find?_some found
  rw [← named] at path
  exact ⟨afterFaithful, afterFaithful.derived.mem_of_reflTransGen (mem_of_find?_eq_some found) path⟩

end Library

open Library

/-- On an import path that starts at a module without cycles no module is met twice. -/
theorem Catalogue.nodup_of_isChain {catalogue : Catalogue} {first : String} {rest : List String}
    (path : (first :: rest).IsChain catalogue.Imports)
    (noCycle : ∀ name, Relation.ReflTransGen catalogue.Imports first name →
      ¬ Relation.TransGen catalogue.Imports name name) : (first :: rest).Nodup ∧
      ∀ name ∈ first :: rest, Relation.ReflTransGen catalogue.Imports first name := by
  have ordered : (first :: rest).Pairwise (Relation.TransGen catalogue.Imports) :=
    List.isChain_iff_pairwise.mp (path.imp fun _ _ => .single)
  have reached : ∀ name ∈ first :: rest, Relation.ReflTransGen catalogue.Imports first name :=
    List.forall_mem_cons.mpr ⟨.refl, fun name mem =>
      ((List.pairwise_cons.mp ordered).1 name mem).to_reflTransGen⟩
  refine ⟨ordered.imp_of_mem fun isName _ path same => ?_, reached⟩
  subst same
  exact noCycle _ (reached _ isName) path

/-- The analysis of a first program ends, and so does its compilation.  If the program is accepted,
then all modules that can be reached from it have texts, none of them has the name of the program,
and none of them imports itself, directly or not.  If a path of imports from the program meets a
name twice, the program is refused. -/
theorem import_cycles_refused (settings : Settings) (file source : String) :
    let own := Path.moduleName file
    let outcome := fresh (analyzeEntry settings file source)
    (∃ after,
      Desk.Ends (fun depth => (Desk.analyzeEntry settings depth file source).run ⟨.empty, []⟩)
        (outcome, ⟨after, []⟩)) ∧
    (∃ after,
      Desk.Ends (fun depth => (Desk.loadEntry settings depth file source).run ⟨.empty, []⟩)
        (fresh (loadEntry settings file source), ⟨after, []⟩)) ∧
    (∀ program, outcome = .ok program →
      ∀ name, settings.catalogue.Reachable file source name →
        (∃ moduleFile text, settings.catalogue.supplies.get? name = some (.text moduleFile text)) ∧
        name ≠ own ∧ ¬ Relation.TransGen settings.catalogue.Imports name name) ∧
    (∀ first rest, first ∈ settings.catalogue.entryImports file source →
      (first :: rest).IsChain settings.catalogue.Imports →
      ¬ (own :: first :: rest).Nodup → ∃ error, outcome = .error error) := by
  intro own outcome
  have accepted : ∀ program, outcome = .ok program →
      ∀ name, settings.catalogue.Reachable file source name →
        (∃ moduleFile text, settings.catalogue.supplies.get? name = some (.text moduleFile text)) ∧
        name ≠ own ∧ ¬ Relation.TransGen settings.catalogue.Imports name name := by
    intro program isOk name reachable
    have loads : Loads (analyzeEntry settings file source) Library.empty program
        (leaves (analyzeEntry settings file source) Library.empty) := Prod.ext isOk rfl
    obtain ⟨faithful, module, member, rfl⟩ := mem_of_reachable loads (faithful_empty _) reachable
    obtain ⟨text, supplied⟩ := faithful.derived.supplied member
    exact ⟨⟨module.file, text, supplied⟩, by simpa using faithful.absent module member,
      faithful.derived.not_transGen_self faithful.sound member⟩
  refine ⟨⟨_, Desk.performs_analyzeEntry settings file source _⟩,
    ⟨_, Desk.performs_loadEntry settings file source consistent_empty⟩, accepted,
    fun first rest isFirst path twice => ?_⟩
  cases isOutcome : outcome with
  | error error => exact ⟨error, rfl⟩
  | ok program =>
    have reachable : ∀ name, Relation.ReflTransGen settings.catalogue.Imports first name →
        settings.catalogue.Reachable file source name := fun name path => ⟨first, isFirst, path⟩
    obtain ⟨nodup, reached⟩ := Catalogue.nodup_of_isChain path fun name path =>
      (accepted program isOutcome name (reachable name path)).2.2
    have notOwn : own ∉ first :: rest := fun member =>
      (accepted program isOutcome own (reachable own (reached own member))).2.1 rfl
    exact absurd (List.nodup_cons.mpr ⟨notOwn, nodup⟩) twice

def relayCatalogue : Catalogue :=
  (Catalogue.empty.addText "Base" "function f()\x7breturn(1)\x7d").addText "Relay"
    "from Base import(f)"

def relaySource : String := "from Relay import(f)procedure Main()\x7b\x7d"

def loopCatalogue : Catalogue :=
  (Catalogue.empty.addText "Back" "from Forth import(f)").addText "Forth" "from Back import(f)"

def loopSource : String := "from Back import(f)"

/-- A program that needs two modules, one after the other, and one that needs two modules that need
each other. -/
theorem relay_accepted_loop_refused :
    (∃ program, fresh (analyzeEntry ⟨relayCatalogue, true⟩ "main" relaySource) = .ok program) ∧
    relayCatalogue.Reachable "main" relaySource "Base" ∧
    ¬ Relation.TransGen relayCatalogue.Imports "Base" "Base" ∧
    ∃ error, fresh (analyzeEntry ⟨loopCatalogue, true⟩ "main" loopSource) = .error error := by
  have isFirst : "Relay" ∈ relayCatalogue.entryImports "main" relaySource := by decide +kernel
  have isNext : relayCatalogue.Imports "Relay" "Base" := by decide +kernel
  have reachable : relayCatalogue.Reachable "main" relaySource "Base" :=
    ⟨"Relay", isFirst, .single isNext⟩
  have succeeds : (fresh (analyzeEntry ⟨relayCatalogue, true⟩ "main" relaySource)).isOk = true := by
    decide +kernel
  obtain ⟨-, -, accepted, -⟩ := import_cycles_refused ⟨relayCatalogue, true⟩ "main" relaySource
  obtain ⟨-, -, -, refused⟩ := import_cycles_refused ⟨loopCatalogue, true⟩ "main" loopSource
  cases isOutcome : fresh (analyzeEntry ⟨relayCatalogue, true⟩ "main" relaySource) with
  | error error =>
    rw [isOutcome] at succeeds
    cases succeeds
  | ok program =>
    refine ⟨⟨program, rfl⟩, reachable, (accepted program isOutcome "Base" reachable).2.2, ?_⟩
    have isBack : "Back" ∈ loopCatalogue.entryImports "main" loopSource := by decide +kernel
    have path : ["Back", "Forth", "Back"].IsChain loopCatalogue.Imports := by decide +kernel
    exact refused "Back" ["Forth", "Back"] isBack path (by decide)

end StoneBoard
