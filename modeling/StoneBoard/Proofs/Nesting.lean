import StoneBoard.Proofs.History

/-!
# Modules at work

The list of the modules that are being analyzed can be kept at one place, where a module is
added before its text is looked at and removed afterwards.  Nothing in this says that modules do
not go on opening other modules, so it is done up to some depth, and nothing comes out of it if
that is not deep enough.  Yet there always is an end: from some depth on, what comes out is what is
done with the list at hand, and the list is left as it was, also after a failure.
-/

namespace StoneBoard

open List

variable {change : Error → Error}
variable {older mods : List Analyzed}

namespace Library

variable {span : Span} {known : Analyzed}

/-! ## Steps that the two ways of loading share -/

def buildModule (known : Analyzed) (older : List Analyzed) (span : Span) :
    Loading CompiledModule := do
  let compiled ← rethrow (fun error => (error.inFile known.file).reraise known.name span)
    (linkAll (compileAnalyzed older) known.program >>= fun links =>
      lift (Compilation.compileModule known.name known.file links known.program))
  modify fun library => { library with compiled := library.compiled.insert known.name compiled }
  return compiled

theorem result_compileAnalyzed_cons {lib : Library}
    (missing : lib.compiled.get? known.name = none) :
    result (compileAnalyzed (known :: older) known.name span) lib =
      result (buildModule known older span) lib := by
  rw [compileAnalyzed, if_pos rfl, result_bind, result_get]
  dsimp only
  rw [missing]
  rfl

theorem compileAnalyzed_of_suffix {longer : List Analyzed} (sound : ModulesSound longer)
    (suffix : mods <:+ longer) (mem : known ∈ mods) (span : Span) :
    compileAnalyzed longer known.name span = compileAnalyzed mods known.name span := by
  obtain ⟨extra, rfl⟩ := suffix
  induction extra with
  | nil => rfl
  | cons first rest ih =>
    obtain ⟨isNew, -, -, restSound⟩ := sound
    have differ := isNew known (mem_append_right rest mem)
    rw [cons_append, compileAnalyzed, if_neg differ.symm]
    exact ih restSound

end Library

/-! ## Desks -/

/-- A library, and the modules that are being analyzed, the outermost first. -/
structure Desk where
  library : Library
  atWork : List String

namespace Desk

open Library

variable {name : String} {lib : Library}

abbrev Working := StateT Desk Option

def start (name : String) (desk : Desk) : Desk := { desk with atWork := desk.atWork ++ [name] }

def finish (desk : Desk) : Desk := { desk with atWork := desk.atWork.dropLast }

section Analysis

variable (resolve : String → Span → Working (Except Error Analyzed))

def importEach (imported : Interface) : List Import → Working (Except Error Interface)
  | [] => pure (.ok imported)
  | declaration :: rest => do
      match ← resolve declaration.source declaration.span with
      | .error error => pure (.error error)
      | .ok known =>
          match Check.importNames known.interface imported declaration with
          | .error error => pure (.error error)
          | .ok imported => importEach imported rest

def analyzeProgram (settings : Settings) (entry : Bool) (program : Program) :
    Working (Except Error (Program × Interface)) := do
  match ← importEach resolve [] program.imports with
  | .error error => pure (.error error)
  | .ok imported => pure (conclude settings entry imported program)

def analyzeText (settings : Settings) (name source : String) (entry : Bool) :
    Working (Except Error (Program × Interface)) :=
  match Program.ofText source with
  | .error error => pure (.error error)
  | .ok program =>
      if entry && name != preludeName && settings.catalogue.offers preludeName then do
        match ← resolve preludeName .nowhere with
        | .error error => pure (.error error)
        | .ok prelude =>
            analyzeProgram resolve settings entry (withPrelude prelude.interface program)
      else analyzeProgram resolve settings entry program

end Analysis

/-- A module, if no more than `depth` modules have to be open for it. -/
def analyzeModule (settings : Settings) :
    Nat → String → Span → Working (Except Error Analyzed)
  | 0, _, _ => failure
  | depth + 1, name, span => do
      let desk ← get
      match desk.library.analyzed? name with
      | some known => pure (.ok known)
      | none =>
          if name ∈ desk.atWork then
            pure (.error (.located
              (.recursiveModules (String.intercalate " -> " (desk.atWork ++ [name]))) span))
          else
            match settings.catalogue.textOf name span with
            | .error error => pure (.error error)
            | .ok (file, source) => do
                modify (start name)
                let outcome ← analyzeText (analyzeModule settings depth) settings name source false
                modify finish
                match outcome with
                | .error error => pure (.error ((error.inFile file).reraise name span))
                | .ok (program, interface) => do
                    let known : Analyzed := { name, file, program, interface }
                    modify fun desk =>
                      { desk with library.analyzed := known :: desk.library.analyzed }
                    pure (.ok known)

def interface (settings : Settings) (depth : Nat) (name : String) (span : Span) :
    Working (Except Error Interface) := do
  match ← analyzeModule settings depth name span with
  | .error error => pure (.error error)
  | .ok known => pure (.ok known.interface)

def analyzeEntry (settings : Settings) (depth : Nat) (file source : String) :
    Working (Except Error Program) := do
  modify (start (Path.moduleName file))
  let outcome ← analyzeText (analyzeModule settings depth) settings (Path.moduleName file) source
    true
  modify finish
  match outcome with
  | .error error => pure (.error (inEntry file source error))
  | .ok (program, _) => pure (.ok program)

def linkEach (compile : String → Span → Working (Except Error CompiledModule))
    (links : Table (CompiledModule × Routine)) :
    List Import → Working (Except Error (Table (CompiledModule × Routine)))
  | [] => pure (.ok links)
  | declaration :: rest => do
      match ← compile declaration.source declaration.span with
      | .error error => pure (.error error)
      | .ok home =>
          match Compilation.linkNames home links declaration.names with
          | .error error => pure (.error error)
          | .ok links => linkEach compile links rest

def compileKnown (compile : String → Span → Working (Except Error CompiledModule))
    (span : Span) (known : Analyzed) : Working (Except Error CompiledModule) := do
  match ← linkEach compile [] known.program.imports with
  | .error error => pure (.error ((error.inFile known.file).reraise known.name span))
  | .ok links =>
      match Compilation.compileModule known.name known.file links known.program with
      | .error error => pure (.error ((error.inFile known.file).reraise known.name span))
      | .ok home => do
          modify fun desk =>
            { desk with library.compiled := desk.library.compiled.insert known.name home }
          pure (.ok home)

def compiledModule (settings : Settings) :
    Nat → String → Span → Working (Except Error CompiledModule)
  | 0, _, _ => failure
  | depth + 1, name, span => do
      let desk ← get
      match desk.library.compiled.get? name with
      | some home => pure (.ok home)
      | none => do
          match ← analyzeModule settings depth name span with
          | .error error => pure (.error error)
          | .ok known => compileKnown (compiledModule settings depth) span known

def compileEntry (settings : Settings) (depth : Nat) (file source : String) (program : Program) :
    Working (Except Error CompiledModule) := do
  match ← linkEach (compiledModule settings depth) [] program.imports with
  | .error error => pure (.error (inEntry file source error))
  | .ok links =>
      match Compilation.compileModule "" file links program with
      | .error error => pure (.error (inEntry file source error))
      | .ok home => pure (.ok home)

def loadEntry (settings : Settings) (depth : Nat) (file source : String) :
    Working (Except Error CompiledModule) := do
  match ← analyzeEntry settings depth file source with
  | .error error => pure (.error error)
  | .ok program => compileEntry settings depth file source program

def perform (settings : Settings) (depth : Nat) (desk : Desk) : Request → Option Desk
  | .interface name span => ((interface settings depth name span).run desk).map Prod.snd
  | .compiledModule name span =>
      ((compiledModule settings depth name span).run desk).map Prod.snd
  | .analyzeEntry file source => ((analyzeEntry settings depth file source).run desk).map Prod.snd
  | .compileEntry file source program =>
      ((compileEntry settings depth file source program).run desk).map Prod.snd
  | .loadEntry file source => ((loadEntry settings depth file source).run desk).map Prod.snd

def afterAll (settings : Settings) (depth : Nat) (desk : Desk) (requests : List Request) :
    Option Desk :=
  requests.foldlM (perform settings depth) desk

/-! ## Both do the same -/

/-- From some depth on, something always comes out as the same. -/
def Ends {α : Type} (run : Nat → Option α) (value : α) : Prop :=
  ∃ enough, ∀ depth, enough ≤ depth → run depth = some value

section Ends

variable {α β : Type} {run : Nat → Option α} {value : α}

theorem ends_of_forall (same : ∀ depth, run depth = some value) : Ends run value :=
  ⟨0, fun depth _ => same depth⟩

theorem Ends.bind {next : Nat → α → Option β} {last : β} (ends : Ends run value)
    (endsNext : Ends (fun depth => next depth value) last) :
    Ends (fun depth => run depth >>= next depth) last := by
  obtain ⟨enough, same⟩ := ends
  obtain ⟨enoughNext, sameNext⟩ := endsNext
  refine ⟨max enough enoughNext, fun depth deep => ?_⟩
  dsimp only
  rw [same depth (le_of_max_le_left deep)]
  exact sameNext depth (le_of_max_le_right deep)

theorem ends_succ : Ends (fun depth => run (depth + 1)) value ↔ Ends run value := by
  constructor
  · rintro ⟨enough, same⟩
    refine ⟨enough + 1, fun depth deep => ?_⟩
    obtain ⟨smaller, rfl⟩ := Nat.exists_eq_add_of_le' (Nat.le_of_add_left_le deep)
    exact same smaller (by omega)
  · rintro ⟨enough, same⟩
    exact ⟨enough, fun depth deep => same (depth + 1) (Nat.le_succ_of_le deep)⟩

end Ends

/-- Something ends at a desk with what is given with the list at hand, and with the library that
is left then; the list is as before. -/
def Performs {α : Type} (action : Nat → Working (Except Error α)) (loading : Loading α)
    (library : Library) (atWork : List String) : Prop :=
  Ends (fun depth => (action depth).run ⟨library, atWork⟩)
    ((result loading library).1, ⟨(result loading library).2, atWork⟩)

section Performs

variable {α β : Type} {lib : Library} {atWork : List String}
variable {action : Nat → Working (Except Error β)} {first : Loading β} {second : β → Loading α}
  {next : Nat → Desk → Working (Except Error α)}

theorem performs_pure {loading : Loading α} {outcome : Except Error α}
    (same : result loading lib = (outcome, lib)) :
    Performs (fun _ => pure outcome) loading lib atWork := by
  rw [Performs, same]
  exact ends_of_forall fun _ => rfl

theorem Performs.ends {action : Nat → Working (Except Error α)} {loading : Loading α}
    {outcome : Except Error α} (performs : Performs action loading lib atWork)
    (same : (result loading lib).1 = outcome) :
    ∃ after, Ends (fun depth => (action depth).run ⟨lib, atWork⟩)
      (outcome, ⟨after, atWork⟩) := by
  rw [← same]
  exact ⟨_, performs⟩

theorem Performs.bind {next : Nat → Except Error β → Working (Except Error α)}
    (performs : Performs action first lib atWork)
    (stops : ∀ depth error, next depth (.error error) = pure (.error error))
    (performsNext : ∀ value after, Loads first lib value after →
      Performs (fun depth => next depth (.ok value)) (second value) after atWork) :
    Performs (fun depth => action depth >>= next depth) (first >>= second) lib atWork := by
  refine Ends.bind performs ?_
  rw [result_bind]
  rcases isResult : result first lib with ⟨error | value, after⟩
  · refine ends_of_forall fun depth => ?_
    dsimp only
    rw [stops]
    rfl
  · exact performsNext value after isResult

theorem performs_bind_of_ends {action : Nat → Working (Except Error β)}
    {outcome : Except Error β} {next : Nat → Except Error β → Working (Except Error α)}
    {loading : Loading α}
    (ends : Ends (fun depth => (action depth).run ⟨lib, atWork⟩) (outcome, ⟨lib, atWork⟩))
    (performs : Performs (fun depth => next depth outcome) loading lib atWork) :
    Performs (fun depth => action depth >>= next depth) loading lib atWork :=
  Ends.bind ends performs

theorem performs_get {loading : Loading α}
    (performs : Performs (fun depth => next depth ⟨lib, atWork⟩) loading lib atWork) :
    Performs (fun depth => get >>= next depth) loading lib atWork :=
  performs

theorem performs_get_bind {second : Library → Loading α}
    (performs : Performs (fun depth => next depth ⟨lib, atWork⟩) (second lib) lib
      atWork) : Performs (fun depth => get >>= next depth) (get >>= second) lib atWork :=
  performs

/-- What is done while a module is at work ends, and then the module is no more at work, also
after a failure. -/
theorem Performs.within {next : Except Error β → Working (Except Error α)}
    (performs : Performs action first lib (atWork ++ [name]))
    (stops : ∀ error, next (.error error) = pure (.error (change error)))
    (continues : ∀ value after, (next (.ok value)).run ⟨after, atWork⟩ =
      some ((result (second value) after).1, ⟨(result (second value) after).2, atWork⟩)) :
    Performs (fun depth => modify (start name) >>= fun _ => action depth >>= fun outcome =>
        modify finish >>= fun _ => next outcome)
      (rethrow change first >>= second) lib atWork := by
  have starts : (modify (start name) : Working Unit).run ⟨lib, atWork⟩ =
    some ((), ⟨lib, atWork ++ [name]⟩) := rfl
  have finishes : ∀ left : Library, (modify finish : Working Unit).run ⟨left, atWork ++ [name]⟩ =
      some ((), ⟨left, atWork⟩) := fun left => by
    simp [finish]
  obtain ⟨enough, same⟩ := performs
  refine ⟨enough, fun depth deep => ?_⟩
  simp only [StateT.run_bind, starts, same depth deep, finishes, Option.bind_eq_bind,
    Option.bind_some, result_bind, result_rethrow]
  rcases result first lib with ⟨error | value, after⟩
  · rw [stops]
    rfl
  · exact continues value after

theorem Performs.compute {γ : Type}
    {compute : β → Except Error γ} {next : Except Error β → Working (Except Error α)}
    {second : γ → Loading α} (performs : Performs action first lib atWork)
    (stops : ∀ error, next (.error error) = pure (.error (change error)))
    (fails : ∀ value error, compute value = .error error →
      next (.ok value) = pure (.error (change error)))
    (continues : ∀ value computed after, compute value = .ok computed →
      (next (.ok value)).run ⟨after, atWork⟩ = some ((result (second computed) after).1,
        ⟨(result (second computed) after).2, atWork⟩)) :
    Performs (fun depth => action depth >>= next)
      (rethrow change (first >>= fun value => lift (compute value)) >>= second) lib
      atWork := by
  obtain ⟨enough, same⟩ := performs
  refine ⟨enough, fun depth deep => ?_⟩
  simp only [StateT.run_bind, same depth deep, Option.bind_eq_bind, Option.bind_some, result_bind,
    result_rethrow]
  rcases result first lib with ⟨error | value, after⟩
  · rw [stops]
    rfl
  · simp only [result_lift]
    cases isComputed : compute value with
    | error error =>
      rw [fails value error isComputed]
      rfl
    | ok computed => exact continues value computed after isComputed

end Performs

section Modules

variable {opts : Settings} {atWork : List String} {lib : Library}

def PerformsModules (settings : Settings) (atWork : List String) : Prop :=
  ∀ name span library, Performs (fun depth => analyzeModule settings depth name span)
    (Library.analyzeModule settings atWork name span) library atWork

theorem PerformsModules.importEach (performs : PerformsModules opts atWork)
    (imports : List Import) (imported : Interface) (lib : Library) :
    Performs (fun depth => importEach (analyzeModule opts depth) imported imports)
      (imports.foldlM (fun imported decl => do
        let iface ← Library.interface opts atWork decl.source decl.span
        lift (Check.importNames iface imported decl)) imported) lib atWork := by
  induction imports generalizing imported lib with
  | nil => exact performs_pure rfl
  | cons decl rest ih =>
    simp only [Desk.importEach]
    rw [foldlM_cons, bind_assoc, Library.interface, bind_assoc]
    refine (performs decl.source decl.span lib).bind (fun _ _ => rfl)
      fun known after _ => ?_
    rw [pure_bind]
    dsimp only
    cases Check.importNames known.interface imported decl with
    | error error => exact performs_pure rfl
    | ok imported => exact ih imported after

theorem PerformsModules.analyzeProgram (performs : PerformsModules opts atWork)
    (entry : Bool) (prog : Program) (lib : Library) :
    Performs (fun depth => analyzeProgram (analyzeModule opts depth) opts entry prog)
      (Library.analyzeProgram opts entry (Library.interface opts atWork) prog) lib atWork := by
  rw [analyzeProgram_eq]
  refine (performs.importEach prog.imports [] lib).bind (fun _ _ => rfl)
    fun imported _ _ => ?_
  exact performs_pure result_lift

theorem PerformsModules.analyzeText (performs : PerformsModules opts atWork)
    (name src : String) (lib : Library) :
    Performs (fun depth => analyzeText (analyzeModule opts depth) opts name src false)
      (lift (Program.ofText src) >>=
        Library.analyzeProgram opts false (Library.interface opts atWork)) lib atWork := by
  unfold Desk.analyzeText
  cases Program.ofText src with
  | error error => exact performs_pure rfl
  | ok prog => exact performs.analyzeProgram false prog lib

/-- The modules at work are all different and have texts, so there is an end to them. -/
theorem performsModules (opts : Settings) (atWork : List String) : PerformsModules opts atWork := by
  intro name span lib
  refine ends_succ.mp ?_
  simp only [Desk.analyzeModule]
  rw [analyzeModule_eq]
  refine performs_get_bind ?_
  dsimp only
  cases lib.analyzed? name with
  | some known => exact performs_pure rfl
  | none =>
    by_cases working : name ∈ atWork
    · simp only [if_pos working]
      exact performs_pure rfl
    · simp only [if_neg working]
      cases isText : opts.catalogue.textOf name span with
      | error error => exact performs_pure rfl
      | ok text =>
        have fewer := idleCount_lt_of_textOf isText working
        have inner := performsModules opts (atWork ++ [name])
        exact (inner.analyzeText name text.2 lib).within (fun _ => rfl) fun _ _ => rfl
termination_by idleCount opts.catalogue.supplies atWork

theorem performs_interface (opts : Settings) (name : String) (span : Span) (lib : Library) :
    Performs (fun depth => interface opts depth name span)
      (Library.interface opts [] name span) lib [] :=
  (performsModules opts [] name span lib).bind (fun _ _ => rfl) fun _ _ _ =>
    performs_pure rfl

theorem PerformsModules.entryText (performs : PerformsModules opts [name]) (src : String)
    (lib : Library) : Performs
      (fun depth => Desk.analyzeText (analyzeModule opts depth) opts name src true)
      (entryText opts name src) lib [name] := by
  unfold Desk.analyzeText
  rw [Library.entryText, Bool.true_and]
  cases Program.ofText src with
  | error error => exact performs_pure rfl
  | ok prog =>
    rw [lift, pure_bind]
    dsimp only
    by_cases imports : (name != preludeName && opts.catalogue.offers preludeName) = true
    · simp only [if_pos imports, Library.interface, bind_assoc, pure_bind]
      refine (performs preludeName .nowhere lib).bind (fun _ _ => rfl) fun prelude after _ => ?_
      exact performs.analyzeProgram true (withPrelude prelude.interface prog) after
    · simp only [if_neg imports]
      exact performs.analyzeProgram true prog lib

theorem performs_analyzeEntry (opts : Settings) (file src : String) (lib : Library) :
    Performs (fun depth => analyzeEntry opts depth file src)
      (Library.analyzeEntry opts file src) lib [] := by
  have inner := performsModules opts [Path.moduleName file]
  rw [analyzeEntry_eq]
  exact Performs.within (inner.entryText src lib) (fun _ => rfl) fun _ _ => rfl

end Modules

section Compilation

variable {opts : Settings}
variable {known : Analyzed}

def PerformsCompilation (settings : Settings) (modules : List Analyzed) : Prop :=
  ∀ name span library, library.Consistent → modules <:+ library.analyzed →
    (∃ known ∈ modules, known.name = name) →
    Performs (fun depth => compiledModule settings depth name span)
      (compileAnalyzed modules name span) library []

/-- The imports are linked at the desk as they are by a compilation of modules that is performed
there. -/
theorem performs_linkEach {compile : String → Span → Loading CompiledModule}
    (compiling : Compiling mods compile) (imports : List Import)
    (links : Table (CompiledModule × Routine)) (performs : ∀ decl ∈ imports, ∀ lib,
      lib.Consistent → mods <:+ lib.analyzed →
      Performs (fun depth => compiledModule opts depth decl.source decl.span)
        (compile decl.source decl.span) lib [])
    (consistent : lib.Consistent) (suffix : mods <:+ lib.analyzed) :
    Performs (fun depth => linkEach (compiledModule opts depth) links imports)
      (imports.foldlM (fun links decl => do
        let src ← compile decl.source decl.span
        lift (Compilation.linkNames src links decl.names)) links) lib [] := by
  induction imports generalizing links lib with
  | nil => exact performs_pure rfl
  | cons decl rest ih =>
    obtain ⟨performsOne, performsRest⟩ := List.forall_mem_cons.mp performs
    simp only [Desk.linkEach]
    rw [foldlM_cons, bind_assoc]
    refine (performsOne lib consistent suffix).bind (fun _ _ => rfl)
      fun home after compiles => ?_
    have grows := compiling compiles suffix consistent
    dsimp only
    cases Compilation.linkNames home links decl.names with
    | error error => exact performs_pure rfl
    | ok links => exact ih links performsRest grows.consistent (suffix.trans grows.suffix)

theorem PerformsCompilation.compileKnown (performs : PerformsCompilation opts older)
    (span : Span) (consistent : lib.Consistent) (suffix : known :: older <:+ lib.analyzed) :
    Performs (fun depth => compileKnown (compiledModule opts depth) span known)
      (buildModule known older span) lib [] := by
  obtain ⟨-, sound, -, -⟩ := consistent.sound.of_suffix suffix
  have links := performs_linkEach (compiling_compileAnalyzed older) known.program.imports []
    (fun decl mem lib consistent suffix => by
      obtain ⟨known, found⟩ := sound.find?_of_import mem
      exact performs _ _ lib consistent suffix ⟨known, mem_of_find?_eq_some found,
        by simpa using find?_some found⟩)
    consistent ((suffix_cons known older).trans suffix)
  refine links.compute (fun _ => rfl) (fun links error failed => ?_)
    fun links home after compiled => ?_
  · simp only [failed]
  · simp only [compiled]
    rfl

theorem ends_analyzeModule {span : Span} (isKnown : lib.analyzed? name = some known) :
    Ends (fun depth => (analyzeModule opts depth name span).run ⟨lib, []⟩)
      (.ok known, ⟨lib, []⟩) := by
  have performs := performsModules opts [] name span lib
  have already : Loads (Library.analyzeModule opts [] name span) lib known lib :=
    loads_analyzeModule.mpr (.inl ⟨isKnown, rfl⟩)
  rwa [Performs, show result _ lib = (.ok known, lib) from already] at performs

theorem performsCompilation (opts : Settings) (mods : List Analyzed) :
    PerformsCompilation opts mods := by
  induction mods with
  | nil =>
    rintro name span lib - - ⟨known, isKnown, -⟩
    cases isKnown
  | cons known older ih =>
    intro name span lib consistent suffix isKnown
    have olderSuffix := (suffix_cons known older).trans suffix
    by_cases same : known.name = name
    · subst same
      have found : lib.analyzed? known.name = some known :=
        consistent.sound.find?_of_suffix suffix (by simp)
      refine ends_succ.mp ?_
      simp only [Desk.compiledModule]
      refine performs_get ?_
      dsimp only
      cases isKept : lib.compiled.get? known.name with
      | some home =>
        refine performs_pure ?_
        rw [compileAnalyzed, if_pos rfl, result_bind, result_get]
        simp only [isKept, result_pure]
      | none =>
        rw [Performs, result_compileAnalyzed_cons isKept]
        exact performs_bind_of_ends (ends_analyzeModule found)
          (ih.compileKnown span consistent suffix)
    · rw [compileAnalyzed, if_neg same]
      obtain ⟨other, isOther, named⟩ := isKnown
      cases isOther with
      | head => exact absurd named same
      | tail _ isOlder => exact ih name span lib consistent olderSuffix ⟨other, isOlder, named⟩

theorem performs_compiledModule (opts : Settings) (name : String) (span : Span)
    (consistent : lib.Consistent) : Performs (fun depth => compiledModule opts depth name span)
      (Library.compiledModule opts name span) lib [] := by
  refine ends_succ.mp ?_
  simp only [Desk.compiledModule]
  rw [Library.compiledModule]
  refine performs_get_bind ?_
  dsimp only
  cases isKept : lib.compiled.get? name with
  | some home => exact performs_pure rfl
  | none =>
    refine (performsModules opts [] name span lib).bind (fun _ _ => rfl)
      fun known after loads => ?_
    have grows := (consistent.loads_analyzeModule loads).1
    have missing : after.compiled.get? name = none := by
      rw [((resolves_interface hereditary_true []).loads (loads_interface loads) consistent.sound
        trivial).1.compiled, isKept]
    -- the list of modules has it now, and what it imports comes after it
    obtain ⟨named, before, older, split, -⟩ :=
      List.find?_eq_some_iff_append.mp (analyzed?_of_loads loads)
    have suffix : known :: older <:+ after.analyzed := ⟨before, split.symm⟩
    rw [beq_iff_eq] at named
    subst named
    have same : result (get >>= fun lib => compileAnalyzed lib.analyzed known.name span)
        after = result (buildModule known older span) after := by
      rw [result_bind, result_get]
      dsimp only
      rw [compileAnalyzed_of_suffix grows.consistent.sound suffix mem_cons_self,
        result_compileAnalyzed_cons missing]
    rw [Performs, same]
    exact (performsCompilation opts older).compileKnown span grows.consistent suffix

theorem performs_compileEntry (opts : Settings) (file src : String) (prog : Program)
    (consistent : lib.Consistent) : Performs (fun depth => compileEntry opts depth file src prog)
      (Library.compileEntry opts file src prog) lib [] := by
  rw [Library.compileEntry, ← bind_pure (rethrow _ _)]
  have links := performs_linkEach (compiling_compiledModule opts) prog.imports []
    (fun decl _ _ consistent _ =>
      performs_compiledModule opts decl.source decl.span consistent)
    consistent nil_suffix
  refine links.compute (fun _ => rfl) (fun links error failed => ?_)
    fun links home after compiled => ?_
  · simp only [failed]
  · simp only [compiled]
    rfl

theorem performs_loadEntry (opts : Settings) (file src : String) (consistent : lib.Consistent) :
    Performs (fun depth => loadEntry opts depth file src)
      (Library.loadEntry opts file src) lib [] := by
  refine (performs_analyzeEntry opts file src lib).bind (fun _ _ => rfl)
    fun prog after loads => ?_
  have grows := (loads_analyzeEntry loads consistent.toChecked).1.grows consistent
  exact performs_compileEntry opts file src prog grows.consistent

end Compilation

/-! ## Requests -/

theorem Performs.map_snd {α : Type} {action : Nat → Working (Except Error α)} {loading : Loading α}
    {atWork : List String} (performs : Performs action loading lib atWork) :
    Ends (fun depth => ((action depth).run ⟨lib, atWork⟩).map Prod.snd)
      ⟨leaves loading lib, atWork⟩ := by
  obtain ⟨enough, same⟩ := performs
  exact ⟨enough, fun depth deep => congrArg (Option.map Prod.snd) (same depth deep)⟩

theorem ends_perform (opts : Settings) (request : Request) (consistent : lib.Consistent) :
    Ends (fun depth => perform opts depth ⟨lib, []⟩ request)
      ⟨request.perform opts lib, []⟩ := by
  cases request with
  | interface name span => exact (performs_interface opts name span lib).map_snd
  | compiledModule name span =>
    exact (performs_compiledModule opts name span consistent).map_snd
  | analyzeEntry file src => exact (performs_analyzeEntry opts file src lib).map_snd
  | compileEntry file src prog =>
    exact (performs_compileEntry opts file src prog consistent).map_snd
  | loadEntry file src => exact (performs_loadEntry opts file src consistent).map_snd

theorem ends_afterAll (opts : Settings) (requests : List Request) (consistent : lib.Consistent) :
    Ends (fun depth => afterAll opts depth ⟨lib, []⟩ requests)
      ⟨lib.afterAll (requests.map fun request => (opts, request)), []⟩ := by
  induction requests generalizing lib with
  | nil => exact ends_of_forall fun _ => rfl
  | cons request rest ih =>
    simp only [afterAll, foldlM_cons]
    exact (ends_perform opts request consistent).bind
      (ih (consistent.perform opts request).consistent)

end Desk

end StoneBoard
