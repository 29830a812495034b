import StoneBoard.Proofs.Linking
import StoneBoard.Proofs.Provenance

/-!
# What has been done with a library

Requests to a library may fail, and they change it even then.  After any requests, the modules
that a library knows are sound and offer whatever others import from them, and the compiled forms
that it keeps are those of its modules.  A program that has been accepted can therefore be
compiled, whatever else has been done before or in between.
-/

namespace StoneBoard

open List

variable {modules : List Analyzed} {imported : Interface} {prog : Program}
  {imports : List Import} {home : CompiledModule}
variable {longer : List Analyzed} {annotated : Program} {name : String}
  {links : Table (CompiledModule × Routine)} {known : Analyzed}

/-! ## Modules that are added -/

/-- There is a module that offers all that a declaration imports. -/
def Import.OfferedBy (modules : List Analyzed) (declaration : Import) : Prop :=
  ∃ known, modules.find? (fun known => known.name == declaration.source) = some known ∧
    ∀ entry ∈ declaration.names, entry.1 ≠ "Main" ∧ (known.interface.get? entry.1).isSome

theorem Import.OfferedBy.of_suffix {decl : Import} (offered : decl.OfferedBy modules)
    (sound : ModulesSound longer) (suffix : modules <:+ longer) : decl.OfferedBy longer := by
  obtain ⟨known, found, names⟩ := offered
  exact ⟨known, sound.find?_of_suffix suffix found, names⟩

def Interface.Tidy (interface : Interface) : Prop :=
  ∀ name info, interface.get? name = some info → info.kind = .procedure → info.returns = []

theorem Inference.function_of_inferProgram {returns : Returns}
    (inferred : inferProgram imported prog = .ok (annotated, returns)) {types : List Ty}
    (known : returns.get? name = some types) : ∃ defn ∈ annotated.definitions, defn.name = name ∧
      defn.kind = .function := by
  simp only [inferProgram, bind_eq_ok, pure_eq_ok, Prod.exists, Prod.mk.injEq] at inferred
  obtain ⟨defns, all, -, rfl, rfl⟩ := inferred
  have mem := List.mem_eraseDups.mp (Table.mem_of_get? known)
  obtain ⟨defn, isFunction, found⟩ := List.mem_filterMap.mp mem
  obtain ⟨_, -, same⟩ := Option.map_eq_some_iff.mp found
  cases same
  obtain ⟨listed, kind⟩ := List.mem_filter.mp isFunction
  exact ⟨defn, listed, rfl, beq_iff_eq.mp kind⟩

namespace Library

theorem tidy_exports (tidy : imported.Tidy)
    (nodup : (prog.definitions.map Definition.name).Nodup) {returns : Inference.Returns}
    (functions : ∀ name types, returns.get? name = some types →
      ∃ defn ∈ prog.definitions, defn.name = name ∧ defn.kind = .function) :
    (exports imported returns prog).Tidy := by
  intro name info told isProcedure
  rw [get?_exports nodup] at told
  split at told
  · exact tidy name info told isProcedure
  · cases isOwn : prog.definition? name with
    | none =>
      rw [isOwn] at told
      exact tidy name info told isProcedure
    | some defn =>
      rw [isOwn] at told
      cases told
      have mem := mem_of_find?_eq_some isOwn
      have kind : defn.kind = .procedure := isProcedure
      have noTypes : returns.get? defn.name = none := by
        cases known : returns.get? defn.name with
        | none => rfl
        | some types =>
          obtain ⟨other, otherMember, sameName, isFunction⟩ := functions _ _ known
          cases inj_on_of_nodup_map nodup otherMember mem sameName
          cases isFunction.symm.trans kind
      simp [noTypes, Definition.info, kind]

/-- Modules offer whatever any of them imports. -/
structure Offering (modules : List Analyzed) : Prop where
  offered : ∀ known ∈ modules, ∀ declaration ∈ known.program.imports, declaration.OfferedBy modules
  tidy : ∀ known ∈ modules, known.interface.Tidy

/-- The modules of a library are sound, and they offer whatever any of them imports. -/
structure Checked (library : Library) : Prop extends Offering library.analyzed where
  sound : ModulesSound library.analyzed

structure Enlarges (before after : Library) : Prop where
  suffix : before.analyzed <:+ after.analyzed
  compiled : after.compiled = before.compiled
  checked : after.Checked

section Enlarging

variable {before after lib : Library} {known : Interface} {opts : Settings} {entry : Bool}
  {atWork : List String}

theorem Extends.enlarges (grown : Extends atWork Offering before after) : Enlarges before after :=
  ⟨grown.suffix, grown.compiled, grown.valid, grown.sound⟩

theorem offered_of_lookup (loads : Loads (imports.foldlM (fun imported decl => do
      let iface ← lookup modules decl.source decl.span
      lift (Check.importNames iface imported decl)) known) before imported after) :
    (∀ decl ∈ imports, decl.OfferedBy modules) ∧
      ((∀ known ∈ modules, known.interface.Tidy) → known.Tidy → imported.Tidy) := by
  induction imports generalizing known before with
  | nil =>
    obtain ⟨rfl, -⟩ := loads_pure.mp loads
    exact ⟨forall_mem_nil _, fun _ => id⟩
  | cons decl rest ih =>
    simp only [foldlM_cons, loads_bind, loads_lift, loads_lookup] at loads
    obtain ⟨between, _, ⟨_, _, ⟨⟨module, found, rfl⟩, rfl⟩, taken, rfl⟩, loadsRest⟩ := loads
    obtain ⟨-, isNew, told⟩ := Check.importNames_eq_ok taken
    obtain ⟨restOffered, restTidy⟩ := ih loadsRest
    refine ⟨List.forall_mem_cons.mpr ⟨⟨module, found, fun entry mem =>
      ⟨(isNew entry mem).1, (isNew entry mem).2.2⟩⟩, restOffered⟩, fun allTidy tidy =>
      restTidy allTidy fun name info isTold => ?_⟩
    rw [told] at isTold
    split at isTold
    · exact allTidy module (mem_of_find?_eq_some found) name info isTold
    · exact tidy name info isTold

theorem Offering.of_lookup {iface : Interface} (offering : Offering modules)
    (loads : Loads (analyzeProgram opts entry (lookup modules) prog) before
      (annotated, iface) after) : (∀ decl ∈ annotated.imports, decl.OfferedBy modules) ∧
      ((annotated.definitions.map Definition.name).Nodup → iface.Tidy) := by
  obtain ⟨imported, loadsImports, concluded⟩ := loads_analyzeProgram.mp loads
  obtain ⟨-, returns, rfl, typed⟩ := conclude_eq_ok concluded
  obtain ⟨offered, tidy⟩ := offered_of_lookup loadsImports
  have tidy := tidy offering.tidy fun _ _ told => by cases told
  rcases typed with ⟨-, inferred⟩ | ⟨-, rfl, rfl⟩
  · rw [(Inference.bare_inferProgram inferred).1]
    exact ⟨offered, fun nodup => tidy_exports tidy nodup fun _ _ known =>
      Inference.function_of_inferProgram inferred known⟩
  · exact ⟨offered, fun nodup => tidy_exports tidy nodup fun _ _ known => by cases known⟩

theorem hereditary_offering (opts : Settings) : Hereditary opts Offering := by
  intro modules known src prog sound offering _ _ loads
  obtain ⟨programOffered, tidy⟩ := offering.of_lookup (loads empty)
  have stays : ∀ decl : Import, decl.OfferedBy modules →
      decl.OfferedBy (known :: modules) :=
    fun decl offered => offered.of_suffix sound (suffix_cons _ _)
  refine ⟨List.forall_mem_cons.mpr ⟨?_, ?_⟩,
    List.forall_mem_cons.mpr ⟨tidy sound.2.1.nodup, offering.tidy⟩⟩
  · exact fun decl mem => stays decl (programOffered decl mem)
  · exact fun other mem decl listed =>
      stays decl (offering.offered other mem decl listed)

theorem enlarges_interface (opts : Settings) (atWork : List String) (name : String)
    (span : Span) (checked : lib.Checked) :
    Enlarges lib (leaves (interface opts atWork name span) lib) :=
  ((resolves_interface (hereditary_offering opts) atWork).preserves lib name span lib
    (.refl checked.sound checked.toOffering)).2.enlarges

/-- What a first program imports is offered by modules of the library. -/
theorem loads_analyzeEntry {file src : String}
    (loads : Loads (analyzeEntry opts file src) before prog after) (checked : before.Checked) :
    Enlarges before after ∧
      ∀ decl ∈ prog.imports, decl.OfferedBy after.analyzed := by
  obtain ⟨grown, _, _, _, -, -, lookups⟩ :=
    lookup_of_analyzeEntry (hereditary_offering opts) loads checked.sound checked.toOffering
  exact ⟨grown.enlarges, (grown.valid.of_lookup (lookups empty)).1⟩

end Enlarging

/-! ## Compiled forms that are kept -/

/-- A compiled form is that of the module of a name. -/
structure Represents (library : Library) (home : CompiledModule) (known : Analyzed) : Prop where
  found : library.analyzed.find? (fun other => other.name == known.name) = some known
  compiled : Compilation.compileModule known.name known.file home.links known.program = .ok home
  linked : library.Linked known.program home.links

/-- The modules of a library are sound and offer what they import, and the compiled forms that it
keeps are theirs. -/
structure Consistent (library : Library) : Prop extends library.Checked where
  holds : ∀ name home, library.compiled.get? name = some home → library.Holds name home

structure Grows (before after : Library) : Prop where
  suffix : before.analyzed <:+ after.analyzed
  kept : ∀ name home, before.compiled.get? name = some home →
    after.compiled.get? name = some home
  consistent : after.Consistent

section Grows

variable {lib before after : Library}

theorem Consistent.grows (consistent : lib.Consistent) : Grows lib lib :=
  ⟨suffix_rfl, fun _ _ => id, consistent⟩

theorem Grows.trans {between : Library} (first : Grows before between)
    (second : Grows between after) : Grows before after :=
  ⟨first.suffix.trans second.suffix, fun name home isKept =>
    second.kept name home (first.kept name home isKept), second.consistent⟩

theorem Enlarges.grows (enlarges : Enlarges before after) (consistent : before.Consistent) :
    Grows before after := by
  have kept : ∀ name home, before.compiled.get? name = some home →
      after.compiled.get? name = some home := by
    rw [enlarges.compiled]
    exact fun _ _ => id
  refine ⟨enlarges.suffix, kept, enlarges.checked, fun name home isKept => ?_⟩
  rw [enlarges.compiled] at isKept
  exact (consistent.holds name home isKept).mono enlarges.checked.sound enlarges.suffix kept

theorem Consistent.proper (consistent : lib.Consistent) : lib.Proper :=
  ⟨consistent.sound, consistent.holds⟩

theorem Furthers.grows (furthers : Furthers before after) (consistent : before.Consistent) :
    Grows before after := by
  obtain ⟨same, kept, proper⟩ := furthers
  exact ⟨same ▸ suffix_rfl, kept, ⟨same ▸ consistent.toOffering, proper.sound⟩, proper.holds⟩

theorem Consistent.builtAs (consistent : lib.Consistent) {site : Site}
    (isKept : lib.compiled.get? name = some home)
    (found : Site.module? lib.analyzed name = some site) : site.BuiltAs home := by
  obtain ⟨other, compiled, built⟩ := compileFrom_succeeds consistent.sound found
  cases compiled.symm.trans (consistent.holds name home isKept).compiled
  exact built

theorem Consistent.represents (consistent : lib.Consistent)
    (isKept : lib.compiled.get? name = some home) :
    ∃ known, known.name = name ∧ lib.Represents home known := by
  obtain ⟨compiled, imports⟩ := consistent.holds name home isKept
  obtain ⟨known, found⟩ := find?_of_compileFrom compiled
  obtain ⟨named, extra, older, split, -⟩ := List.find?_eq_some_iff_append.mp found
  rw [beq_iff_eq] at named
  subst named
  have suffix : known :: older <:+ lib.analyzed := ⟨extra, split.symm⟩
  have here : (known :: older).find? (fun other => other.name == known.name) = some known := by
    simp
  obtain ⟨-, sound, -, olderSound⟩ := consistent.sound.of_suffix suffix
  obtain ⟨links, other, linked, linkedBy, isHome, -⟩ := builtAs_of_sources sound olderSound
    (fun _ _ => compileFrom_succeeds olderSound) known.name known.file
  rw [compileFrom_of_suffix consistent.sound suffix here, compileFrom, if_pos rfl,
    bind_eq_ok.mpr ⟨links, linked, isHome⟩] at compiled
  cases compiled
  obtain ⟨routines, -, same⟩ := bind_eq_ok.mp isHome
  cases pure_eq_ok.mp same
  exact ⟨known, rfl, found, isHome, linkedBy.linked consistent.proper
    ((suffix_cons known older).trans suffix) (imports known found)⟩

end Grows

end Library

/-! ## Compilation -/

namespace Library

variable {name : String} {span : Span}

/-- Compiling a module while some modules are there keeps all that has been kept before. -/
def Compiling (modules : List Analyzed) (compile : String → Span → Loading CompiledModule) : Prop :=
  ∀ ⦃source : String⦄ ⦃span : Span⦄ ⦃before after : Library⦄ ⦃home : CompiledModule⦄,
    Loads (compile source span) before home after → modules <:+ before.analyzed →
    before.Consistent → Grows before after

section Compiling

variable {compile : String → Span → Loading CompiledModule} {modules : List Analyzed}
  {before after : Library} {prog : Program} {links : Table (CompiledModule × Routine)}
variable {other : String}

theorem module?_of_compileAnalyzed
    (loads : Loads (compileAnalyzed modules name span) before home after) :
    ∃ site, Site.module? modules name = some site := by
  induction modules with
  | nil => simp [compileAnalyzed] at loads
  | cons known older ih =>
    rw [Site.module?]
    split
    next => exact ⟨_, rfl⟩
    next differ =>
      rw [compileAnalyzed, if_neg differ] at loads
      exact ih loads

theorem compiling_compileAnalyzed (modules : List Analyzed) :
    Compiling modules (compileAnalyzed modules) := by
  intro name span before after home loads suffix consistent
  obtain ⟨site, found⟩ := module?_of_compileAnalyzed loads
  obtain ⟨other, compiled, -⟩ := compileFrom_succeeds (consistent.sound.of_suffix suffix) found
  obtain ⟨last, loadsToo, furthers, -⟩ :=
    compiles_compileAnalyzed modules span compiled consistent.proper suffix
  cases loads.symm.trans loadsToo
  exact furthers.grows consistent

end Compiling

section Requests

variable {opts : Settings} {before after lib : Library}
variable {file src : String}

theorem Consistent.loads_analyzeModule {atWork : List String} (consistent : before.Consistent)
    (loads : Loads (analyzeModule opts atWork name span) before known after) :
    Grows before after ∧ ∃ site, Site.module? after.analyzed name = some site := by
  have grown := ((resolves_interface (hereditary_offering opts) atWork).loads
    (loads_interface loads) consistent.sound consistent.toOffering).1
  obtain ⟨site, isSite, -⟩ := grown.sound.offers (analyzed?_of_loads loads)
  exact ⟨grown.enlarges.grows consistent, site, isSite⟩

theorem grows_interface (opts : Settings) (start : Library) (atWork : List String)
    (name : String) (span : Span) : Preserves (Grows start) (interface opts atWork name span) := by
  refine preserves_of_leaves fun lib grows => grows.trans ?_
  exact (enlarges_interface opts atWork name span grows.consistent.toChecked).grows grows.consistent

/-- A module can only fail to be compiled because it cannot be analyzed. -/
theorem grows_compiledModule (opts : Settings) (start : Library) (name : String)
    (span : Span) : Preserves (Grows start) (compiledModule opts name span) := by
  refine preserves_of_leaves fun lib grows => ?_
  have consistent := grows.consistent
  cases isCached : lib.compiled.get? name with
  | some kept => simpa [compiledModule, isCached] using grows
  | none =>
    have analyzes := grows_interface opts start [] name span lib grows
    rw [interface, result_bind] at analyzes
    simp only [compiledModule, result_bind, result_get, isCached]
    rcases found : result (analyzeModule opts [] name span) lib with
      ⟨error | known, between⟩ <;> rw [found] at analyzes
    · exact analyzes.2
    · obtain ⟨grows, site, isSite⟩ := consistent.loads_analyzeModule found
      obtain ⟨home, compiled, -⟩ := compileFrom_succeeds grows.consistent.sound isSite
      obtain ⟨after, compiles, furthers, -⟩ :=
        compiles_compileAnalyzed _ span compiled grows.consistent.proper suffix_rfl
      dsimp only
      rw [show result _ between = (.ok home, after) from compiles]
      exact analyzes.2.trans (furthers.grows grows.consistent)

theorem compiling_compiledModule (opts : Settings) :
    Compiling [] (compiledModule opts) := fun name span before _ _ loads _ consistent =>
  (grows_compiledModule opts before name span).of_loads loads consistent.grows

inductive Request where
  | interface (name : String) (span : Span)
  | compiledModule (name : String) (span : Span)
  | analyzeEntry (file source : String)
  | compileEntry (file source : String) (program : Program)
  | loadEntry (file source : String)

def Request.perform (settings : Settings) (library : Library) : Request → Library
  | interface name span => leaves (Library.interface settings [] name span) library
  | compiledModule name span => leaves (Library.compiledModule settings name span) library
  | analyzeEntry file source => leaves (Library.analyzeEntry settings file source) library
  | compileEntry file source program =>
      leaves (Library.compileEntry settings file source program) library
  | loadEntry file source => leaves (Library.loadEntry settings file source) library

def afterAll (library : Library) (requests : List (Settings × Request)) : Library :=
  requests.foldl (fun library request => request.2.perform request.1 library) library

/-- Requests keep what is kept when modules are looked for and compiled. -/
theorem Request.preserves {valid : Library → Prop}
    (analyzes : ∀ atWork name span, Preserves valid (Library.interface opts atWork name span))
    (compiles : ∀ name span, Preserves valid (Library.compiledModule opts name span))
    (request : Request) (isValid : valid lib) : valid (request.perform opts lib) := by
  cases request with
  | interface name span => exact (analyzes [] name span lib isValid).2
  | compiledModule name span => exact (compiles name span lib isValid).2
  | analyzeEntry file src => exact (preserves_analyzeEntry (analyzes _) lib isValid).2
  | compileEntry file src prog =>
    exact (preserves_compileEntry compiles prog lib isValid).2
  | loadEntry file src =>
    exact ((preserves_analyzeEntry (analyzes _)).bind (preserves_compileEntry compiles) lib
      isValid).2

theorem Consistent.perform (consistent : lib.Consistent) (opts : Settings)
    (request : Request) : Grows lib (request.perform opts lib) :=
  request.preserves (grows_interface opts lib) (grows_compiledModule opts lib)
    consistent.grows

theorem Consistent.afterAll (consistent : lib.Consistent)
    (requests : List (Settings × Request)) : Grows lib (lib.afterAll requests) := by
  induction requests generalizing lib with
  | nil => exact consistent.grows
  | cons first rest ih =>
    have grows := consistent.perform first.1 first.2
    exact grows.trans (ih grows.consistent)

theorem consistent_empty : empty.Consistent where
  sound := trivial
  offered _ mem := by cases mem
  tidy _ mem := by cases mem
  holds _ _ isKept := by cases isKept

end Requests

end Library

/-! ## Programs that have been accepted -/

open Library

/-- A program that passes the analysis, whatever has been asked of the library before, is
compiled, whatever has been asked of it in between: all its definitions have code, and all names
that it imports are linked. -/
theorem analyzed_program_compiles (earlier between : List (Settings × Request))
    {settings : Settings} {file source : String} {program : Program} {analyzed : Library}
    (accepts : Loads (analyzeEntry settings file source) (Library.empty.afterAll earlier) program
      analyzed)
    (later : Settings) :
    ∃ compiled last,
      Loads (compileEntry later file source program) (analyzed.afterAll between) compiled last ∧
      (∀ definition ∈ program.definitions, (compiled.routines.get? definition.name).isSome) ∧
      ∀ name ∈ importedNames program.imports, (Table.get? compiled.links name).isSome := by
  have consistent := (consistent_empty.afterAll earlier).consistent
  obtain ⟨-, modulesSound, sound, -⟩ := sound_of_analyzeEntry accepts consistent.sound
  have enlarges := (loads_analyzeEntry accepts consistent.toChecked).1
  have grows := (enlarges.grows consistent).consistent.afterAll between
  -- the modules that the program was checked against are still there
  obtain ⟨links, home, last, loads, compiled, -, -, -, built⟩ :=
    grows.consistent.proper.builtAs sound grows.suffix later file
  refine ⟨home, last, ?_, ?_, ?_⟩
  · simp only [compileEntry, loads_rethrow, loads_bind, loads_lift]
    exact ⟨links, last, loads, compiled, rfl⟩
  · intro definition member
    obtain ⟨sources, routines, -, -⟩ := built
    have own := Compilation.get?_compileDefinitions sound.nodup routines definition.name
    split at own
    next found isFound =>
      obtain ⟨routine, isRoutine, -⟩ := own
      exact Option.isSome_iff_exists.mpr ⟨routine, isRoutine⟩
    next absent =>
      have different := List.find?_eq_none.mp absent definition member
      simp at different
  · intro name imported
    obtain ⟨sources, -, builtSources, linked⟩ := built
    rw [linked]
    cases isImported : program.importOf? name with
    | none => exact absurd imported (Program.importOf?_eq_none.mp isImported)
    | some declaration =>
      obtain ⟨member, listed⟩ := Program.importOf?_eq_some isImported
      obtain ⟨entry, entryMember, rfl⟩ := List.mem_map.mp listed
      obtain ⟨other, isModule, exported⟩ := sound.sources declaration member
      obtain ⟨otherSound, otherModules⟩ := modulesSound.module? isModule
      exact (builtSources _ declaration other isImported isModule).isSome_exported? otherSound
        otherModules (exported entry entryMember)

def baseCatalogue : Catalogue :=
  Catalogue.empty.addText "Base"
    "function one() \x7b return (1) \x7d function two() \x7b return (one()) \x7d"

def chainCatalogue : Catalogue :=
  baseCatalogue.addText "Middle" "from Base import (two) function one() \x7b return (5) \x7d"

def chainSource : String :=
  "from Middle import (two) procedure Main() \x7b x := two() return (x) \x7d"

/-- A module is read before another one turns out to be missing; then the other one is added. -/
theorem chain_compiles_after_failure :
    ∃ program analyzed compiled last,
      Loads (analyzeEntry ⟨chainCatalogue, true⟩ "main.gbs" chainSource)
        (Library.empty.afterAll [(⟨baseCatalogue, false⟩, .interface "Base" .nowhere),
          (⟨baseCatalogue, true⟩, .loadEntry "main.gbs" chainSource)]) program analyzed ∧
      Loads (compileEntry ⟨chainCatalogue, true⟩ "main.gbs" chainSource program)
        (analyzed.afterAll [(⟨baseCatalogue, false⟩, .compiledModule "Base" .nowhere)])
        compiled last ∧
      ∀ name ∈ importedNames program.imports, (Table.get? compiled.links name).isSome := by
  have succeeds : (Id.run ((analyzeEntry ⟨chainCatalogue, true⟩ "main.gbs" chainSource).run.run
      (Library.empty.afterAll [(⟨baseCatalogue, false⟩, .interface "Base" .nowhere),
        (⟨baseCatalogue, true⟩, .loadEntry "main.gbs" chainSource)]))).1.isOk = true := by
    decide +kernel
  rcases isOutcome : Id.run ((analyzeEntry ⟨chainCatalogue, true⟩ "main.gbs" chainSource).run.run
      (Library.empty.afterAll [(⟨baseCatalogue, false⟩, .interface "Base" .nowhere),
        (⟨baseCatalogue, true⟩, .loadEntry "main.gbs" chainSource)])) with
    ⟨error | program, analyzed⟩
  · rw [isOutcome] at succeeds
    cases succeeds
  · obtain ⟨compiled, last, compiles, -, linked⟩ :=
      analyzed_program_compiles _ [(⟨baseCatalogue, false⟩, .compiledModule "Base" .nowhere)]
        isOutcome ⟨chainCatalogue, true⟩
    exact ⟨program, analyzed, compiled, last, isOutcome, compiles, linked⟩

end StoneBoard
