import StoneBoard.Proofs.Diagnosis

/-!
# Errors along imports

If a module cannot be analyzed, neither can whatever imports it.  Along a chain of imports, the
error of the last module is told inside out: every module of the chain adds where the error shows in
it, up to the import in the first program.
-/

namespace StoneBoard

open List

namespace Library

/-! ## Chains of imports -/

/-- While a program is analyzed, the text of a module that it imports is read: the imports in front
of it have been looked up, and the module is neither known nor at work. -/
structure Opens (settings : Settings) (atWork : List String) (before : Library) (program : Program)
    (declaration : Import) (between : Library) (text : String × String) : Prop where
  reaches : ∃ earlier later imported, program.imports = earlier ++ declaration :: later ∧
    Loads (importAll (interface settings atWork) { program with imports := earlier }) before
      imported between
  isNew : between.analyzed? declaration.source = none
  idle : declaration.source ∉ atWork
  isText : settings.catalogue.textOf declaration.source declaration.span = .ok text

/-- A chain of imports leads from a program to a module whose analysis fails. -/
inductive Leads (settings : Settings) : List String → Library → Program → List Import → Error → Prop
  | last {atWork before program declaration between text error}
      (opens : Opens settings atWork before program declaration between text)
      (fails : (result (lift (Program.ofText text.2) >>= analyzeProgram settings false
        (interface settings (atWork ++ [declaration.source]))) between).1 = .error error) :
      Leads settings atWork before program [declaration] error
  | through {atWork before program declaration between text inner chain error}
      (opens : Opens settings atWork before program declaration between text)
      (read : Program.ofText text.2 = .ok inner)
      (leads : Leads settings (atWork ++ [declaration.source]) between inner chain error) :
      Leads settings atWork before program (declaration :: chain) error

/-- A cause at the end of a chain of imports, as it is told at the start: every module adds the
place inside it of the next import, and the last one the place of the error. -/
def nested (cause : Cause) (place : Span) : List Import → Cause
  | [] => cause
  | declaration :: rest =>
      let shown := rest.head?.elim place Import.span
      .inModule declaration.source s!"{shown.line}:{shown.column}" (nested cause place rest)

theorem errorClass_nested (cause : Cause) (place : Span) (chain : List Import) :
    (nested cause place chain).errorClass = cause.errorClass := by
  induction chain with
  | nil => rfl
  | cons first rest ih => exact ih

variable {settings : Settings} {atWork : List String} {before between : Library}
  {program : Program} {decl : Import} {text : String × String} {chain : List Import}
  {place : Span} {error inner : Error} {file source : String}

theorem fails_bind {α β : Type} {action : Loading β} {next : β → Loading α}
    (fails : (result action before).1 = .error error) :
    (result (action >>= next) before).1 = .error error := by
  rw [result_bind]
  rcases outcome : result action before with ⟨fault | value, after⟩ <;> rw [outcome] at fails <;>
    cases fails
  rfl

theorem fails_rethrow {α : Type} {action : Loading α} (change : Error → Error)
    (fails : (result action before).1 = .error error) :
    (result (rethrow change action) before).1 = .error (change error) := by
  rw [result_rethrow]
  rcases outcome : result action before with ⟨fault | value, after⟩ <;> rw [outcome] at fails <;>
    cases fails
  rfl

/-- What is wrong with a module is told where it is imported. -/
theorem Opens.fails (opens : Opens settings atWork before program decl between text) (entry : Bool)
    (fails : (result (lift (Program.ofText text.2) >>= analyzeProgram settings false
      (interface settings (atWork ++ [decl.source]))) between).1 = .error inner) :
    (result (analyzeProgram settings entry (interface settings atWork) program) before).1 =
      .error (inner.reraise decl.source decl.span) := by
  obtain ⟨⟨earlier, later, imported, split, loads⟩, isNew, idle, isText⟩ := opens
  have missed : (result (interface settings atWork decl.source decl.span) between).1 =
      .error (inner.reraise decl.source decl.span) := by
    rw [interface, analyzeModule_eq]
    apply fails_bind
    simp only [result_bind, result_get, isNew, if_neg idle, isText, result_lift]
    exact fails_bind (fails_rethrow _ fails)
  dsimp only [importAll] at loads
  rw [analyzeProgram_eq, importAll, split, foldlM_append]
  apply fails_bind
  rw [result_bind, show result _ before = _ from loads]
  dsimp only
  rw [foldlM_cons]
  exact fails_bind (fails_bind missed)

/-- The error of the last module is told inside out. -/
theorem Leads.told (leads : Leads settings atWork before program chain error) (entry : Bool)
    (placed : error.span = some place) : ∃ outer,
      (result (analyzeProgram settings entry (interface settings atWork) program) before).1 =
        .error outer ∧
      outer.cause = nested error.cause place chain ∧
      outer.span = some (chain.head?.elim place Import.span) ∧ outer.file = none := by
  induction leads generalizing entry with
  | last opens fails =>
    refine ⟨_, opens.fails entry fails, ?_, rfl, rfl⟩
    simp only [Error.reraise, Error.location, placed]
    rfl
  | through opens read _ ih =>
    obtain ⟨inner, fails, cause, shown, -⟩ := ih false placed
    refine ⟨inner.reraise _ _, opens.fails entry ?_, ?_, rfl, rfl⟩
    · rw [read]
      exact fails
    · simp only [Error.reraise, Error.location, shown, cause]
      rfl

theorem Leads.placed (leads : Leads settings atWork before program chain error) :
    ∃ place, error.span = some place := by
  induction leads with
  | @last atWork _ _ decl between text _ _ fails =>
    have found := analyzeText_fails settings (atWork ++ [decl.source]) text.2 between trivial
    rw [fails] at found
    obtain ⟨place, placed, -⟩ := found.1.place
    exact ⟨place, placed⟩
  | through _ _ _ ih => exact ih

/-! ## First programs -/

/-- A program with the import of the prelude, if there is one.  Nothing is imported from a prelude
that cannot be analyzed. -/
def completed (settings : Settings) (name : String) (program : Program) : Program :=
  if name != preludeName && settings.catalogue.offers preludeName then
    let prelude := fresh (interface settings [name] preludeName .nowhere)
    withPrelude (prelude.toOption.getD []) program
  else program

/-- The prelude that has been found for a program is found again as its first import. -/
theorem result_entryText (name : String) (read : Program.ofText source = .ok program) :
    result (entryText settings name source) empty =
      result (analyzeProgram settings true (interface settings [name])
        (completed settings name program)) empty := by
  simp only [entryText, completed, read, lift, pure_bind]
  split
  · rcases found : result (interface settings [name] preludeName .nowhere) empty with
      ⟨fault | prelude, between⟩
    · simp only [result_bind, analyzeProgram_eq, importAll, withPrelude, foldlM_cons, found]
    · have given : fresh (interface settings [name] preludeName .nowhere) = .ok prelude :=
        congrArg Prod.fst found
      obtain ⟨known, _, isKnown, rfl, rfl⟩ := loads_bind.mp found
      have again : result (interface settings [name] preludeName .nowhere) between =
          (.ok known.interface, between) :=
        loads_interface (loads_analyzeModule.mpr (.inl ⟨analyzed?_of_loads isKnown, rfl⟩))
      simp only [given, result_bind, analyzeProgram_eq, importAll, withPrelude, foldlM_cons,
        Except.toOption, Option.getD_some, found, again]
  · rfl

/-- A chain of imports leads from a first program to a module that cannot be analyzed.  The error is
then told as one layer for every module of the chain around its cause, each with the place inside
the module of the next import, and the last one with the place of the error.  It is found at
the import of the first module, in the file of the program, and its class is that of the error. -/
theorem module_errors_keep_origin {first : Import} (read : Program.ofText source = .ok program)
    (leads : Leads settings [Path.moduleName file] empty
      (completed settings (Path.moduleName file) program) (first :: chain) error) :
    ∃ place outer, error.span = some place ∧
      fresh (analyzeEntry settings file source) = .error outer ∧
      outer.cause = nested error.cause place (first :: chain) ∧ outer.span = some first.span ∧
      outer.file = some file ∧ outer.errorClass = error.errorClass := by
  obtain ⟨place, placed⟩ := leads.placed
  obtain ⟨inner, fails, cause, shown, noFile⟩ := leads.told true placed
  obtain ⟨line, sourced⟩ := (inner.inFile file).withSource_eq source
  have told : fresh (analyzeEntry settings file source) =
      .error { inner.inFile file with sourceLine := line } := by
    rw [← sourced, analyzeEntry_eq]
    rw [← result_entryText _ read] at fails
    exact fails_bind (fails_rethrow _ fails)
  refine ⟨place, _, placed, told, cause, shown, ?_, ?_⟩
  · simp only [Error.inFile, noFile, Option.getD_none]
  · exact (congrArg Cause.errorClass cause).trans (errorClass_nested _ _ _)

def brokenCatalogue : Catalogue :=
  (Catalogue.empty.addText "Base" "(").addText "Relay" "\nfrom Base import(f)"

theorem exists_import (source name : String) (span : Span)
    (imports : ((Program.ofText source).toOption.map fun program =>
      program.imports.map fun decl => (decl.source, decl.span)) =
        some [(name, span)]) : ∃ program names, Program.ofText source = .ok program ∧
      program.imports = [⟨name, names, span⟩] := by
  cases read : Program.ofText source with
  | error fault =>
    rw [read] at imports
    cases imports
  | ok program =>
    rw [read] at imports
    obtain ⟨⟨_, names, _⟩, isImport, rfl, rfl⟩ :=
      List.map_eq_singleton_iff.mp (Option.some.inj imports)
    exact ⟨program, names, rfl, isImport⟩

/-- What is wrong with a module shows two imports away. -/
theorem broken_base_keeps_origin :
    ∃ error place outer, Program.ofText "(" = .error error ∧ error.span = some place ∧
      fresh (analyzeEntry ⟨brokenCatalogue, true⟩ "main" "from Relay import(f)") = .error outer ∧
      outer.cause = .inModule "Relay" "2:1"
        (.inModule "Base" s!"{place.line}:{place.column}" error.cause) ∧
      outer.file = some "main" := by
  obtain ⟨program, names, read, isImport⟩ :=
    exists_import "from Relay import(f)" "Relay" ⟨0, 20, 1, 1⟩ (by decide +kernel)
  obtain ⟨relay, relayed, readRelay, isRelay⟩ :=
    exists_import "\nfrom Base import(f)" "Base" ⟨1, 20, 2, 1⟩ (by decide +kernel)
  have malformed : (Program.ofText "(").isOk = false := by decide +kernel
  cases broken : Program.ofText "(" with
  | ok base =>
    rw [broken] at malformed
    cases malformed
  | error error =>
    have own : Path.moduleName "main" = "main" := by decide +kernel
    have alone : completed ⟨brokenCatalogue, true⟩ "main" program = program := if_neg (by decide)
    have leads : Leads ⟨brokenCatalogue, true⟩ [Path.moduleName "main"] empty
        (completed ⟨brokenCatalogue, true⟩ (Path.moduleName "main") program)
        [⟨"Relay", names, ⟨0, 20, 1, 1⟩⟩, ⟨"Base", relayed, ⟨1, 20, 2, 1⟩⟩] error := by
      rw [own, alone]
      refine .through ⟨⟨[], [], [], isImport, rfl⟩, rfl, by simp, rfl⟩ readRelay
        (.last ⟨⟨[], [], [], isRelay, rfl⟩, rfl, by simp, rfl⟩ ?_)
      rw [broken]
      rfl
    obtain ⟨place, outer, placed, told, cause, -, inMain, -⟩ :=
      module_errors_keep_origin read leads
    refine ⟨error, place, outer, rfl, placed, told, cause.trans ?_, inMain⟩
    exact congrArg (Cause.inModule "Relay" · _) (show s!"{2}:{1}" = "2:1" by decide)

end Library

end StoneBoard
