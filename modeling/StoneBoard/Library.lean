import StoneBoard.Catalogue
import StoneBoard.Compilation
import StoneBoard.Inference
import StoneBoard.Program.Parser

/-!
# Libraries

Modules are read, checked and compiled when something imports them, and each of them only once: a
library keeps what has been done.  A list of the modules at work is at hand, so that one that imports
itself, directly or not, is refused.  The first program also gets the routines of the module
`Prelude` that it neither defines nor imports.
-/

namespace StoneBoard

structure Analyzed where
  name : String
  file : String
  program : Program
  interface : Interface

/-- What has been done so far.  A module comes before those that it imports. -/
structure Library where
  analyzed : List Analyzed
  compiled : Table CompiledModule

namespace Library

def empty : Library := ⟨[], []⟩

def analyzed? (library : Library) (name : String) : Option Analyzed :=
  library.analyzed.find? fun known => known.name == name

/-- What has to do with modules may fail, and changes the library even then. -/
abbrev Loading := ExceptT Error (StateM Library)

def rethrow {α : Type} (change : Error → Error) (action : Loading α) : Loading α :=
  ExceptT.adapt change action

def lift {α : Type} : Except Error α → Loading α
  | .ok value => pure value
  | .error error => throw error

/-! ## Analysis -/

structure Settings where
  catalogue : Catalogue
  typecheck : Bool

/-- What a module offers to others: what it imports, and what it defines except for the
main procedure. -/
def exports (imported : Interface) (returns : Inference.Returns) (program : Program) :
    Interface :=
  let own := program.definitions.filter fun definition => definition.name != "Main"
  own.foldl (fun interface definition =>
    let info := definition.info
    let returns := (returns.get? definition.name).getD info.returns
    interface.insert definition.name { info with returns }) imported

def importAll (resolve : String → Span → Loading Interface) (program : Program) :
    Loading Interface :=
  program.imports.foldlM (fun imported declaration => do
    let interface ← resolve declaration.source declaration.span
    lift (Check.importNames interface imported declaration)) []

def analyzeProgram (settings : Settings) (entry : Bool)
    (resolve : String → Span → Loading Interface) (program : Program) :
    Loading (Program × Interface) := do
  let imported ← importAll resolve program
  lift (Check.checkDefinitions entry imported program)
  if settings.typecheck then
    let (program, returns) ← lift (Inference.inferProgram imported program)
    return (program, exports imported returns program)
  else return (program, exports imported [] program)

def idleCount (supplies : Table Supply) (atWork : List String) : Nat :=
  supplies.countP fun supply => !atWork.contains supply.1

theorem idleCount_append_le (supplies : Table Supply) (atWork : List String) (name : String) :
    idleCount supplies (atWork ++ [name]) ≤ idleCount supplies atWork := by
  apply List.countP_mono_left
  simp +contextual

theorem idleCount_append_lt {supplies : Table Supply} {atWork : List String} {name : String}
    {supply : Supply} (found : supplies.get? name = some supply) (fresh : ¬ name ∈ atWork) :
    idleCount supplies (atWork ++ [name]) < idleCount supplies atWork := by
  induction supplies with
  | nil => simp [Table.get?] at found
  | cons first rest inductionHypothesis =>
    obtain ⟨firstName, firstSupply⟩ := first
    unfold idleCount at inductionHypothesis ⊢
    simp only [List.countP_cons]
    by_cases same : firstName = name
    · have restLe := idleCount_append_le rest atWork name
      unfold idleCount at restLe
      simp [same, fresh] at restLe ⊢
      omega
    · have foundRest : Table.get? rest name = some supply := by
        have different : (name == firstName) = false := by simp [Ne.symm same]
        rw [Table.get?, List.lookup_cons, different] at found
        exact found
      have smaller := inductionHypothesis foundRest
      have sameTest : (!(atWork ++ [name]).contains firstName) = !atWork.contains firstName := by
        simp [same]
      simp only [sameTest]
      omega

/-- A module that something imports at `span`, while the modules in `atWork` are being
analyzed, the outermost first. -/
def analyzeModule (settings : Settings) (atWork : List String) (name : String) (span : Span) :
    Loading Analyzed := do
  match (← get).analyzed? name with
  | some known => return known
  | none =>
      if working : name ∈ atWork then
        throw (.located (.recursiveModules (String.intercalate " -> " (atWork ++ [name]))) span)
      else
        match found : settings.catalogue.supplies.get? name with
        | none => throw (settings.catalogue.absence name span)
        | some supply => do
            let (file, source) ← lift (supply.read span)
            let resolve (inner : String) (innerSpan : Span) : Loading Interface := do
              return (← analyzeModule settings (atWork ++ [name]) inner innerSpan).interface
            let (program, interface) ←
              rethrow (fun error => (error.inFile file).reraise name span) do
                analyzeProgram settings false resolve (← lift (Program.ofText source))
            let known : Analyzed := { name, file, program, interface }
            modify fun library => { library with analyzed := known :: library.analyzed }
            return known
termination_by idleCount settings.catalogue.supplies atWork
decreasing_by exact idleCount_append_lt found working

def interface (settings : Settings) (atWork : List String) (name : String) (span : Span) :
    Loading Interface := do
  return (← analyzeModule settings atWork name span).interface

/-! ## The first program -/

def preludeName : String := "Prelude"

def importsName (program : Program) (name : String) : Bool :=
  program.imports.any fun declaration => declaration.names.any fun entry => entry.1 == name

/-- The program with an import of all routines of the prelude that it has no routine of the
same name for. -/
def withPrelude (prelude : Interface) (program : Program) : Program :=
  let missing := prelude.sorted.filter fun (name, _) =>
    (program.definition? name).isNone && !importsName program name
  let declaration : Import :=
    { source := preludeName, names := missing.map fun (name, _) => (name, .nowhere),
      span := .nowhere }
  { program with imports := declaration :: program.imports }

def inEntry (file source : String) (error : Error) : Error :=
  (error.inFile file).withSource source

def analyzeEntry (settings : Settings) (file source : String) : Loading Program :=
  rethrow (inEntry file source) do
    let name := Path.moduleName file
    let resolve := interface settings [name]
    let program ← lift (Program.ofText source)
    let program ←
      if name != preludeName && settings.catalogue.offers preludeName then do
        pure (withPrelude (← resolve preludeName .nowhere) program)
      else pure program
    return (← analyzeProgram settings true resolve program).1

/-! ## Compilation -/

/-- Compiles what a program imports, with the modules that `compile` finds, and links it. -/
def linkAll (compile : String → Span → Loading CompiledModule) (program : Program) :
    Loading (Table (CompiledModule × Routine)) :=
  program.imports.foldlM (fun links declaration => do
    let source ← compile declaration.source declaration.span
    lift (Compilation.linkNames source links declaration.names)) []

/-- The compiled form of one of some analyzed modules, each of which comes before those
that it imports. -/
def compileAnalyzed : List Analyzed → String → Span → Loading CompiledModule
  | [], name, span => throw (.located (.moduleNotFound name) span)
  | known :: older, name, span =>
      if known.name = name then do
        match (← get).compiled.get? name with
        | some compiled => return compiled
        | none =>
            let compiled ← rethrow (fun error => (error.inFile known.file).reraise name span) do
              let links ← linkAll (fun inner innerSpan => compileAnalyzed older inner innerSpan)
                known.program
              lift (Compilation.compileModule name known.file links known.program)
            modify fun library =>
              { library with compiled := library.compiled.insert name compiled }
            return compiled
      else compileAnalyzed older name span

def compiledModule (settings : Settings) (name : String) (span : Span) :
    Loading CompiledModule := do
  match (← get).compiled.get? name with
  | some compiled => return compiled
  | none => do
      let _ ← analyzeModule settings [] name span
      compileAnalyzed (← get).analyzed name span

def compileEntry (settings : Settings) (file source : String) (program : Program) :
    Loading CompiledModule :=
  rethrow (inEntry file source) do
    let links ← linkAll (compiledModule settings) program
    lift (Compilation.compileModule "" file links program)

def loadEntry (settings : Settings) (file source : String) : Loading CompiledModule := do
  let program ← analyzeEntry settings file source
  compileEntry settings file source program

def fresh {α : Type} (action : Loading α) : Except Error α :=
  (action.run.run empty).1

end Library

end StoneBoard
