import StoneBoard.Proofs.Analysis
import StoneBoard.Proofs.Interfaces
import StoneBoard.Proofs.Specialization

/-!
# Loading without types

Whatever a library does with types, it also does without them: it accepts the bare forms of
the same programs, and compiles them to code that differs in what it knows about types.
-/

namespace StoneBoard

open List

variable {name : String}

/-! ## Compiled modules -/

/-- A compiled module that knows more about types than another one, and that leaves the names
of builtins alone. -/
inductive CompiledModule.Specializes : CompiledModule → CompiledModule → Prop
  | intro {typed bare : CompiledModule} (qualifier : typed.qualifier = bare.qualifier)
      (file : typed.file = bare.file)
      (reserved : ∀ name, Builtin.isDefined name = true → typed.exported? name = none)
      (routines : Table.Related Routine.Specializes typed.routines bare.routines)
      (linked : ∀ name,
        (Table.get? typed.links name).isSome = (Table.get? bare.links name).isSome)
      (homes : ∀ name link bareLink, Table.get? typed.links name = some link →
        Table.get? bare.links name = some bareLink → Specializes link.1 bareLink.1)
      (codes : ∀ name link bareLink, Table.get? typed.links name = some link →
        Table.get? bare.links name = some bareLink → link.2.Specializes bareLink.2) :
      Specializes typed bare

namespace CompiledModule

structure LinkSpecializes (typed bare : CompiledModule × Routine) : Prop where
  home : typed.1.Specializes bare.1
  routine : typed.2.Specializes bare.2

theorem specializes_of_related {typed bare : CompiledModule}
    (qualifier : typed.qualifier = bare.qualifier) (file : typed.file = bare.file)
    (reserved : ∀ name, Builtin.isDefined name = true → typed.exported? name = none)
    (routines : Table.Related Routine.Specializes typed.routines bare.routines)
    (links : Table.Related LinkSpecializes typed.links bare.links) : typed.Specializes bare := by
  refine .intro qualifier file reserved routines (fun name => ?_)
    (fun name link bareLink found bareFound => ?_) (fun name link bareLink found bareFound => ?_)
  · have related := links name
    generalize Table.get? typed.links name = link, Table.get? bare.links name = bareLink
      at related
    cases related <;> rfl
  · have related := links name
    rw [found, bareFound] at related
    cases related with
    | some both => exact both.home
  · have related := links name
    rw [found, bareFound] at related
    cases related with
    | some both => exact both.routine

namespace Specializes

variable {typed bare : CompiledModule}

theorem qualifier (spec : typed.Specializes bare) : typed.qualifier = bare.qualifier := by
  cases spec with
  | intro qualifier => exact qualifier

theorem file (spec : typed.Specializes bare) : typed.file = bare.file := by
  cases spec with
  | intro _ file => exact file

theorem reserved (spec : typed.Specializes bare)
    (isBuiltin : Builtin.isDefined name = true) : typed.exported? name = none := by
  cases spec with
  | intro _ _ reserved => exact reserved name isBuiltin

theorem routines (spec : typed.Specializes bare) :
    Table.Related Routine.Specializes typed.routines bare.routines := by
  cases spec with
  | intro _ _ _ routines => exact routines

theorem exported? (spec : typed.Specializes bare) (name : String) :
    Option.Rel LinkSpecializes (typed.exported? name) (bare.exported? name) := by
  have whole := spec
  cases spec with
  | intro _ _ _ routines linked homes codes =>
    have own := routines name
    rw [CompiledModule.exported?, CompiledModule.exported?]
    generalize typed.routines.get? name = routine, bare.routines.get? name = bareRoutine at own
    cases own with
    | some spec => exact .some ⟨whole, spec⟩
    | none =>
      have sameLinked := linked name
      cases found : Table.get? typed.links name with
      | none =>
        rw [found, Option.isSome_none, eq_comm, Option.isSome_eq_false_iff,
          Option.isNone_iff_eq_none] at sameLinked
        simp only [sameLinked]
        exact .none
      | some link =>
        rw [found, Option.isSome_some, eq_comm, Option.isSome_iff_exists] at sameLinked
        obtain ⟨bareLink, bareFound⟩ := sameLinked
        simp only [bareFound]
        exact .some ⟨homes name link bareLink found bareFound,
          codes name link bareLink found bareFound⟩

end Specializes

end CompiledModule

/-! ## Libraries -/

/-- An interface with types, and the same interface without them.  Builtins are not in it. -/
structure Interface.Annotates (typed bare : Interface) : Prop where
  shapes : typed.shapes = bare.shapes
  free : ∀ name, Builtin.isDefined name = true → typed.get? name = none

/-- A program with types, and the same program without them.  All calls fit, and no definition
has the name of a builtin. -/
structure Program.Annotates (typed bare : Program) : Prop where
  same : typed.bare = bare
  fits : ∃ shapes, Compilation.KnowsBuiltins shapes ∧
    ∀ definition ∈ typed.definitions, definition.Regular shapes
  free : ∀ definition ∈ typed.definitions, Builtin.isDefined definition.name = false

structure Analyzed.Annotates (typed bare : Analyzed) : Prop where
  name : typed.name = bare.name
  file : typed.file = bare.file
  program : typed.program.Annotates bare.program
  interface : typed.interface.Annotates bare.interface

namespace Library

variable {prog : Program}
variable {imported : Interface} {resolve bareResolve : String → Span → Loading Interface}
  {links bareLinks : Table (CompiledModule × Routine)} {bareProgram : Program}

/-- A library of modules with types, and the same library without them. -/
structure Annotates (typed bare : Library) : Prop where
  analyzed : List.Forall₂ Analyzed.Annotates typed.analyzed bare.analyzed
  compiled : Table.Related CompiledModule.Specializes typed.compiled bare.compiled

theorem annotates_empty : empty.Annotates empty := ⟨.nil, .nil⟩

theorem Annotates.analyzed? {typed bare : Library} (annotates : typed.Annotates bare)
    (name : String) :
    Option.Rel Analyzed.Annotates (typed.analyzed? name) (bare.analyzed? name) := by
  have analyzed := annotates.analyzed
  unfold Library.analyzed?
  generalize typed.analyzed = mods, bare.analyzed = bareModules at analyzed
  induction analyzed with
  | nil => exact .none
  | cons first _ ih =>
    rw [find?_cons, find?_cons, first.name]
    split
    · exact .some first
    · exact ih

/-- When an action succeeds with types, another one succeeds without them. -/
def Mirrors {α β : Type} (related : α → β → Prop) (typed : Loading α) (bare : Loading β) :
    Prop :=
  ∀ ⦃before after bareBefore : Library⦄ ⦃value : α⦄, Loads typed before value after →
    before.Annotates bareBefore →
    ∃ bareValue bareAfter, Loads bare bareBefore bareValue bareAfter ∧
      related value bareValue ∧ after.Annotates bareAfter

namespace Mirrors

variable {α β γ δ : Type} {related : α → β → Prop} {later : γ → δ → Prop}
variable {value : α} {typed : Loading α} {bare : Loading β}

theorem pure {bareValue : β} (values : related value bareValue) :
    Mirrors related (Pure.pure value) (Pure.pure bareValue) := by
  intro before after bareBefore result loads annotates
  obtain ⟨rfl, rfl⟩ := loads_pure.mp loads
  exact ⟨bareValue, bareBefore, loads_pure.mpr ⟨rfl, rfl⟩, values, annotates⟩

theorem bind {next : α → Loading γ} {bareNext : β → Loading δ} (first : Mirrors related typed bare)
    (continues : ∀ value bareValue, related value bareValue →
      Mirrors later (next value) (bareNext bareValue)) :
    Mirrors later (typed >>= next) (bare >>= bareNext) := by
  intro before after bareBefore result loads annotates
  obtain ⟨value, between, loadsFirst, loadsNext⟩ := loads_bind.mp loads
  obtain ⟨bareValue, bareBetween, bareFirst, values, annotatesBetween⟩ := first loadsFirst annotates
  obtain ⟨bareResult, bareAfter, bareLast, results, annotatesAfter⟩ :=
    continues value bareValue values loadsNext annotatesBetween
  exact ⟨bareResult, bareAfter, loads_bind.mpr ⟨bareValue, bareBetween, bareFirst, bareLast⟩,
    results, annotatesAfter⟩

theorem lift {outcome : Except Error α} {bareOutcome : Except Error β}
    (succeeds : ∀ value, outcome = .ok value →
      ∃ bareValue, bareOutcome = .ok bareValue ∧ related value bareValue) :
    Mirrors related (Library.lift outcome) (Library.lift bareOutcome) := by
  intro before after bareBefore result loads annotates
  obtain ⟨succeeded, rfl⟩ := loads_lift.mp loads
  obtain ⟨bareResult, bareSucceeded, results⟩ := succeeds result succeeded
  exact ⟨bareResult, bareBefore, loads_lift.mpr ⟨bareSucceeded, rfl⟩, results, annotates⟩

theorem rethrow (mirrors : Mirrors related typed bare) (change bareChange : Error → Error) :
    Mirrors related (Library.rethrow change typed) (Library.rethrow bareChange bare) := by
  intro before after bareBefore result loads annotates
  obtain ⟨bareResult, bareAfter, bareLoads, results, annotatesAfter⟩ :=
    mirrors (loads_rethrow.mp loads) annotates
  exact ⟨bareResult, bareAfter, loads_rethrow.mpr bareLoads, results, annotatesAfter⟩

theorem throw (error : Error) (bare : Loading β) :
    Mirrors related (MonadExcept.throw error) bare := by
  intro before after bareBefore result loads _
  exact (loads_throw.mp loads).elim

theorem getBind {next : Library → Loading γ} {bareNext : Library → Loading δ}
    (continues : ∀ lib bareLibrary, lib.Annotates bareLibrary →
      Mirrors later (next lib) (bareNext bareLibrary)) :
    Mirrors later (get >>= next) (get >>= bareNext) := by
  intro before after bareBefore result loads annotates
  simp only [loads_bind, loads_get] at loads
  obtain ⟨_, _, ⟨rfl, rfl⟩, loads⟩ := loads
  obtain ⟨bareResult, bareAfter, bareLoads, rest⟩ :=
    continues before bareBefore annotates loads annotates
  refine ⟨bareResult, bareAfter, ?_, rest⟩
  simp only [loads_bind, loads_get]
  exact ⟨bareBefore, bareBefore, ⟨rfl, rfl⟩, bareLoads⟩

theorem modifying {change bareChange : Library → Library}
    (changes : ∀ lib bareLibrary, lib.Annotates bareLibrary →
      (change lib).Annotates (bareChange bareLibrary)) :
    Mirrors (fun _ _ => True) (modify change : Loading Unit)
      (modify bareChange : Loading Unit) := by
  intro before after bareBefore result loads annotates
  cases loads_modify.mp loads
  exact ⟨(), _, loads_modify.mpr rfl, trivial, changes before bareBefore annotates⟩

theorem foldlM {item : Type} {items : List item} {round : α → item → Loading α}
    {bareRound : β → item → Loading β} {start : α} {bareStart : β}
    (starts : related start bareStart) (rounds : ∀ item value bareValue, related value bareValue →
      Mirrors related (round value item) (bareRound bareValue item)) :
    Mirrors related (items.foldlM round start) (items.foldlM bareRound bareStart) := by
  induction items generalizing start bareStart with
  | nil => exact pure starts
  | cons first rest ih =>
    rw [foldlM_cons, foldlM_cons]
    exact (rounds first start bareStart starts).bind fun _ _ both => ih both

theorem fresh (mirrors : Mirrors related typed bare) (loaded : Library.fresh typed = .ok value) :
    ∃ bareValue, Library.fresh bare = .ok bareValue ∧ related value bareValue := by
  have loads : Loads typed empty value (Id.run (typed.run.run empty)).2 := Prod.ext loaded rfl
  obtain ⟨bareValue, bareAfter, bareLoads, values, -⟩ := mirrors loads annotates_empty
  exact ⟨bareValue, congrArg Prod.fst bareLoads, values⟩

end Mirrors

/-! ## Analysis -/

theorem shapes_exports {bareImported : Interface} (same : imported.shapes = bareImported.shapes)
    {returns : Inference.Returns}
    (counted : Inference.Counted (Inference.ResultCount prog.definitions) returns) :
    Interface.shapes (exports imported returns prog) =
      Interface.shapes (exports bareImported [] prog.bare) := by
  have bareOwn : prog.bare.definitions.filter (fun defn => defn.name != "Main") =
      (prog.definitions.filter fun defn => defn.name != "Main").map
        Definition.bare := by
    rw [Program.bare, filter_map]
    rfl
  have members : ∀ defn ∈ prog.definitions.filter fun defn =>
      defn.name != "Main", defn ∈ prog.definitions :=
    fun _ mem => mem_of_mem_filter mem
  unfold exports
  rw [bareOwn]
  generalize prog.definitions.filter (fun defn => defn.name != "Main") = own
    at members
  induction own generalizing imported bareImported with
  | nil => exact same
  | cons first rest ih =>
    obtain ⟨firstMember, restMembers⟩ := List.forall_mem_cons.mp members
    rw [map_cons, foldl_cons, foldl_cons]
    refine ih ?_ restMembers
    rw [Interface.shapes_insert, Interface.shapes_insert, same,
      shape_of_counted counted firstMember, Definition.info_bare]
    rfl

theorem free_exports (free : ∀ name, Builtin.isDefined name = true → imported.get? name = none)
    (nodup : (prog.definitions.map Definition.name).Nodup)
    (ownFree : ∀ defn ∈ prog.definitions, Builtin.isDefined defn.name = false)
    (returns : Inference.Returns) (isBuiltin : Builtin.isDefined name = true) :
    (exports imported returns prog).get? name = none := by
  have notOwn : prog.definition? name = none := by
    rw [Program.definition?, find?_eq_none]
    intro defn mem sameName
    rw [← beq_iff_eq.mp sameName, ownFree defn mem] at isBuiltin
    cases isBuiltin
  rw [get?_exports nodup, notOwn, free name isBuiltin]
  split <;> rfl

theorem mirrors_importAll (resolves : ∀ name span, Mirrors Interface.Annotates (resolve name span)
      (bareResolve name span)) (prog : Program) :
    Mirrors Interface.Annotates (importAll resolve prog) (importAll bareResolve prog) := by
  refine .foldlM ⟨rfl, fun _ _ => rfl⟩ fun decl imported bareImported both => ?_
  refine .bind (resolves decl.source decl.span)
    fun iface bareInterface interfaces => .lift fun after succeeds => ?_
  obtain ⟨bareAfter, bareSucceeds, sameAfter⟩ :=
    Check.importNames_of_shapes interfaces.shapes both.shapes succeeds
  refine ⟨bareAfter, bareSucceeds, sameAfter, fun name isBuiltin => ?_⟩
  obtain ⟨-, -, known⟩ := Check.importNames_eq_ok succeeds
  rw [known, interfaces.free name isBuiltin, both.free name isBuiltin]
  split <;> rfl

/-- What comes of the analysis of a program with types, and without them. -/
structure Matches (typed bare : Program × Interface) : Prop where
  program : typed.1.Annotates bare.1
  interface : typed.2.Annotates bare.2

theorem mirrors_analyzeProgram (catalogue : Catalogue) (entry : Bool)
    (resolves : ∀ name span, Mirrors Interface.Annotates (resolve name span)
      (bareResolve name span)) (isBare : prog.bare = prog) :
    Mirrors Matches (analyzeProgram ⟨catalogue, true⟩ entry resolve prog)
      (analyzeProgram ⟨catalogue, false⟩ entry bareResolve prog) := by
  rw [analyzeProgram_eq, analyzeProgram_eq]
  refine .bind (mirrors_importAll resolves prog) fun imported bareImported both => .lift ?_
  rintro ⟨annotated, _⟩ concluded
  obtain ⟨checked, returns, rfl, ⟨-, inferred⟩ | ⟨⟨⟩, -⟩⟩ := conclude_eq_ok concluded
  obtain ⟨-, nodup, isNew, locals, known, definitionsChecked⟩ :=
    Check.checkDefinitions_eq_ok checked
  set shapes : String → Option Shape := fun name =>
    (Check.Environment.lookup? ⟨locals, imported⟩ name).map RoutineInfo.shape with isShapes
  have regular : ∀ defn ∈ prog.definitions, defn.Regular shapes :=
    fun defn mem => Check.regular_of_checkDefinition
      (definitionsChecked defn mem)
  obtain ⟨sameImports, keeps, counted⟩ := Inference.keeps_inferProgram regular nodup
    (fun defn mem => (isNew defn mem).2) inferred
  have bareAnnotated : annotated.bare = prog := by
    rw [← isBare, Program.bare, sameImports, keeps.bare_eq, ← Program.bare]
  have free : ∀ defn ∈ annotated.definitions, Builtin.isDefined defn.name = false := by
    intro defn mem
    obtain ⟨orig, originalMember, keepsOne⟩ := keeps.exists_original mem
    rw [keepsOne.name]
    exact (isNew orig originalMember).1
  -- a polymorphic builtin is neither defined nor imported
  have knows : Compilation.KnowsBuiltins shapes := by
    intro op poly
    have isBuiltin := Builtin.ofName?_name (Builtin.operation_mem_all op)
    have isDefined : Builtin.isDefined op.name = true := by
      rw [Builtin.isDefined]
      exact isBuiltin ▸ rfl
    have notOwn : prog.definition? op.name = none := by
      rw [Program.definition?, find?_eq_none]
      intro defn mem sameName
      rw [← beq_iff_eq.mp sameName, (isNew defn mem).1] at isDefined
      cases isDefined
    rw [isShapes]
    simp only [Check.Environment.lookup?, known, notOwn, both.free _ isDefined]
    cases op <;> cases poly <;> rfl
  refine ⟨(prog, exports bareImported [] prog), ?_,
    ⟨bareAnnotated, ⟨shapes, knows, fun defn mem => ?_⟩, free⟩, ?_, ?_⟩
  · exact bind_eq_ok.mpr ⟨(), Check.checkDefinitions_of_shapes both.shapes checked, rfl⟩
  · obtain ⟨orig, originalMember, keepsOne⟩ := keeps.exists_original mem
    exact keepsOne.regular shapes (regular orig originalMember)
  · rw [shapes_exports both.shapes (counted.keeps keeps), bareAnnotated]
  · intro name isBuiltin
    exact free_exports both.free (keeps.names ▸ nodup) free returns isBuiltin

theorem mirrors_ofText (src : String) :
    Mirrors (fun text bareText => text = bareText ∧ text.bare = text)
      (lift (Program.ofText src)) (lift (Program.ofText src)) := by
  refine .lift fun text read => ⟨text, read, rfl, ?_⟩
  exact ((Program.ofText_read src).2 text read).bare_eq

theorem mirrors_analyzeModule (catalogue : Catalogue) (atWork : List String) (name : String)
    (span : Span) : Mirrors Analyzed.Annotates (analyzeModule ⟨catalogue, true⟩ atWork name span)
      (analyzeModule ⟨catalogue, false⟩ atWork name span) := by
  rw [analyzeModule_eq, analyzeModule_eq]
  refine .getBind fun lib bareLibrary annotates => ?_
  have isKnown := annotates.analyzed? name
  generalize lib.analyzed? name = known, bareLibrary.analyzed? name = bareKnown at isKnown
  cases isKnown with
  | some both => exact .pure both
  | none =>
    dsimp only
    split
    next => exact .throw _ _
    next notWorking =>
      have sameText : Mirrors
          (fun text bareText => text = bareText ∧ catalogue.textOf name span = .ok text)
          (lift (catalogue.textOf name span)) (lift (catalogue.textOf name span)) :=
        .lift fun text isText => ⟨text, isText, rfl, isText⟩
      apply sameText.bind
      rintro text _ ⟨rfl, isText⟩
      -- with one more module at work, fewer are left for the calls inside
      have fewer := idleCount_lt_of_textOf isText notWorking
      refine .bind (.rethrow (?analyzed : Mirrors Matches _ _) _ _) ?_
      case analyzed =>
        apply (mirrors_ofText text.2).bind
        rintro text _ ⟨rfl, isBare⟩
        refine mirrors_analyzeProgram catalogue false (fun inner innerSpan => ?_) isBare
        exact .bind (mirrors_analyzeModule catalogue (atWork ++ [name]) inner innerSpan)
          fun known bareKnown both => .pure both.interface
      rintro ⟨prog, iface⟩ ⟨bareProgram, bareInterface⟩ ⟨programs, interfaces⟩
      have both : Analyzed.Annotates ⟨name, text.1, prog, iface⟩
          ⟨name, text.1, bareProgram, bareInterface⟩ := ⟨rfl, rfl, programs, interfaces⟩
      refine .bind (.modifying fun lib bareLibrary annotates => ?_) fun _ _ _ => .pure both
      exact ⟨.cons both annotates.analyzed, annotates.compiled⟩
termination_by idleCount catalogue.supplies atWork

theorem mirrors_interface (catalogue : Catalogue) (atWork : List String) (name : String)
    (span : Span) : Mirrors Interface.Annotates (interface ⟨catalogue, true⟩ atWork name span)
      (interface ⟨catalogue, false⟩ atWork name span) :=
  .bind (mirrors_analyzeModule catalogue atWork name span) fun _ _ both => .pure both.interface

theorem mirrors_analyzeEntry (catalogue : Catalogue) (file src : String) :
    Mirrors Program.Annotates (analyzeEntry ⟨catalogue, true⟩ file src)
      (analyzeEntry ⟨catalogue, false⟩ file src) := by
  have resolves := mirrors_interface catalogue [Path.moduleName file]
  unfold analyzeEntry
  refine .rethrow (.bind (mirrors_ofText src) ?_) _ _
  rintro text _ ⟨rfl, isBare⟩
  have sameDefinitions : text.definitions.map Definition.bare = text.definitions :=
    congrArg Program.definitions isBare
  simp only [pure_bind]
  split
  · refine .bind (resolves preludeName .nowhere) fun prelude barePrelude both => ?_
    have extendedBare : (withPrelude barePrelude text).bare = withPrelude barePrelude text := by
      simp only [Program.bare, withPrelude, sameDefinitions]
    rw [withPrelude_eq both.shapes text]
    exact .bind (mirrors_analyzeProgram catalogue true resolves extendedBare)
      fun _ _ both => .pure both.program
  · exact .bind (mirrors_analyzeProgram catalogue true resolves isBare)
      fun _ _ both => .pure both.program

/-! ## Compilation -/

structure LinksAnnotate (links bareLinks : Table (CompiledModule × Routine)) : Prop where
  related : Table.Related CompiledModule.LinkSpecializes links bareLinks
  free : ∀ name, Builtin.isDefined name = true → links.get? name = none

theorem linkNames_bare {src bareSource : CompiledModule}
    (spec : src.Specializes bareSource) {after : Table (CompiledModule × Routine)}
    (annotates : LinksAnnotate links bareLinks) {names : List (String × Span)}
    (succeeds : Compilation.linkNames src links names = .ok after) :
    ∃ bareAfter, Compilation.linkNames bareSource bareLinks names = .ok bareAfter ∧
      LinksAnnotate after bareAfter := by
  induction names generalizing links bareLinks with
  | nil =>
    cases succeeds
    exact ⟨bareLinks, rfl, annotates⟩
  | cons entry rest ih =>
    obtain ⟨name, span⟩ := entry
    have exported := spec.exported? name
    rw [Compilation.linkNames] at succeeds ⊢
    cases found : src.exported? name with
    | none =>
      rw [found] at succeeds
      cases succeeds
    | some link =>
      rw [found] at exported succeeds
      generalize bareSource.exported? name = bareFound at exported ⊢
      cases exported with
      | some both =>
        refine ih ⟨annotates.related.insert name both, fun other isBuiltin => ?_⟩ succeeds
        rw [Table.get?_insert]
        split
        next same =>
          rw [← same, spec.reserved isBuiltin] at found
          cases found
        next => exact annotates.free other isBuiltin

theorem compileModule_bare (programs : prog.Annotates bareProgram)
    (annotates : LinksAnnotate links bareLinks) (qualifier file : String) {home : CompiledModule}
    (compiled : Compilation.compileModule qualifier file links prog = .ok home) :
    ∃ bareHome, Compilation.compileModule qualifier file bareLinks bareProgram = .ok bareHome ∧
      home.Specializes bareHome := by
  obtain ⟨shapes, knows, regular⟩ := programs.fits
  obtain ⟨routines, bareRoutines, compiledAll, bareCompiledAll, related⟩ :=
    Compilation.compileDefinitions_bare knows .start regular Table.Related.nil
  simp only [Compilation.compileModule, compiledAll, bind_eq_ok, pure_eq_ok] at compiled
  obtain ⟨_, same, rfl⟩ := compiled
  cases same
  refine ⟨⟨qualifier, file, bareRoutines, bareLinks⟩, ?_,
    CompiledModule.specializes_of_related rfl rfl (fun name isBuiltin => ?_) related
      annotates.related⟩
  · rw [← programs.same]
    exact bind_eq_ok.mpr ⟨_, bareCompiledAll, rfl⟩
  · have notOwn : routines.get? name = none := by
      apply Compilation.get?_compileDefinitions_of_notMem compiledAll
      intro defn mem sameName
      rw [← sameName, programs.free defn mem] at isBuiltin
      cases isBuiltin
    rw [CompiledModule.exported?, notOwn]
    exact annotates.free name isBuiltin

theorem mirrors_linkAll {compile bareCompile : String → Span → Loading CompiledModule}
    (compiles : ∀ name span, Mirrors CompiledModule.Specializes (compile name span)
      (bareCompile name span)) (programs : prog.Annotates bareProgram) :
    Mirrors LinksAnnotate (linkAll compile prog) (linkAll bareCompile bareProgram) := by
  have sameImports : bareProgram.imports = prog.imports := by
    rw [← programs.same]
    rfl
  unfold linkAll
  rw [sameImports]
  refine .foldlM ⟨Table.Related.nil, fun _ _ => rfl⟩ fun decl links bareLinks both => ?_
  exact .bind (compiles decl.source decl.span) fun src bareSource spec =>
    .lift fun after succeeds => linkNames_bare spec both succeeds

theorem mirrors_compileAnalyzed {mods bareModules : List Analyzed}
    (annotates : List.Forall₂ Analyzed.Annotates mods bareModules) (name : String) (span : Span) :
    Mirrors CompiledModule.Specializes (compileAnalyzed mods name span)
      (compileAnalyzed bareModules name span) := by
  induction annotates generalizing name span with
  | nil => exact .throw _ _
  | @cons known bareKnown older bareOlder both _ ih =>
    rw [compileAnalyzed, compileAnalyzed, both.name, both.file]
    split
    next =>
      refine .getBind fun lib bareLibrary libraries => ?_
      have kept := libraries.compiled name
      generalize lib.compiled.get? name = home, bareLibrary.compiled.get? name = bareHome
        at kept
      cases kept with
      | some spec => exact .pure spec
      | none =>
        refine .bind (.rethrow (.bind (mirrors_linkAll ih both.program)
          fun links bareLinks linked => .lift fun home compiled => ?_) _ _)
          fun home bareHome spec => .bind (.modifying fun lib bareLibrary libraries =>
            ⟨libraries.analyzed, libraries.compiled.insert name spec⟩)
            fun _ _ _ => .pure spec
        exact compileModule_bare both.program linked name bareKnown.file compiled
    next => exact ih name span

theorem mirrors_compiledModule (catalogue : Catalogue) (name : String) (span : Span) :
    Mirrors CompiledModule.Specializes (compiledModule ⟨catalogue, true⟩ name span)
      (compiledModule ⟨catalogue, false⟩ name span) := by
  refine .getBind fun lib bareLibrary libraries => ?_
  have kept := libraries.compiled name
  generalize lib.compiled.get? name = home, bareLibrary.compiled.get? name = bareHome at kept
  cases kept with
  | some spec => exact .pure spec
  | none =>
    refine .bind (mirrors_analyzeModule catalogue [] name span) fun _ _ _ => ?_
    exact .getBind fun lib bareLibrary libraries =>
      mirrors_compileAnalyzed libraries.analyzed name span

theorem mirrors_loadEntry (catalogue : Catalogue) (file src : String) :
    Mirrors CompiledModule.Specializes (loadEntry ⟨catalogue, true⟩ file src)
      (loadEntry ⟨catalogue, false⟩ file src) := by
  refine .bind (mirrors_analyzeEntry catalogue file src) fun prog bareProgram programs => ?_
  refine .rethrow (.bind (mirrors_linkAll (mirrors_compiledModule catalogue) programs)
    fun links bareLinks linked => .lift fun home compiled => ?_) _ _
  exact compileModule_bare programs linked "" file compiled

end Library

end StoneBoard
