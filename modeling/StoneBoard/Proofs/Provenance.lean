import StoneBoard.Proofs.Analysis

/-!
# Where analyzed programs come from

Each program of a library with types has been read from a text, has been checked against the
interfaces of the modules before it, and has got its types from them.  This says at once what
all properties of inferred types in a library follow from.
-/

namespace StoneBoard

open List

variable {src : String} {prog : Program}

/-! ## Imports -/

namespace Check

theorem mem_of_importNames {iface imported after : Interface} {names : List (String × Span)}
    (succeeds : names.foldlM (importName src iface) imported = .ok after)
    {entry : String × RoutineInfo} (mem : entry ∈ after) : entry ∈ imported ∨
      entry.1 ∈ names.map Prod.fst ∧ iface.get? entry.1 = some entry.2 := by
  induction names generalizing imported with
  | nil =>
    cases succeeds
    exact .inl mem
  | cons first rest ih =>
    obtain ⟨between, imports, succeedsRest⟩ := bind_eq_ok.mp succeeds
    obtain ⟨-, -, info, offered, rfl⟩ := importName_eq_ok.mp imports
    rcases ih succeedsRest with before | ⟨listed, told⟩
    · rcases List.mem_cons.mp before with rfl | earlier
      · exact .inr ⟨mem_cons_self, offered⟩
      · exact .inl earlier
    · exact .inr ⟨mem_cons_of_mem _ listed, told⟩

end Check

theorem Program.importOf?_of_mem (nodup : (importedNames prog.imports).Nodup)
    {decl : Import} (mem : decl ∈ prog.imports) {name : String}
    (listed : name ∈ decl.names.map Prod.fst) : prog.importOf? name = some decl := by
  unfold importOf?
  generalize prog.imports = imports at nodup mem
  induction imports with
  | nil => cases mem
  | cons first rest ih =>
    have split : importedNames (first :: rest) =
        first.names.map Prod.fst ++ importedNames rest := rfl
    rw [split, nodup_append'] at nodup
    obtain ⟨-, restNodup, apart⟩ := nodup
    rcases List.mem_cons.mp mem with rfl | inRest
    · apply find?_cons_of_pos
      simpa using listed
    · have laterListed : name ∈ importedNames rest := List.mem_flatMap.mpr ⟨_, inRest, listed⟩
      have notFirst : name ∉ first.names.map Prod.fst := fun early => apart early laterListed
      rw [find?_cons_of_neg (by simpa using notFirst)]
      exact ih restNodup inRest

namespace Library

/-- What has been imported by declarations is told by the interfaces of the modules that they
name. -/
def ImportedFrom (modules : List Analyzed) (imports : List Import) (imported : Interface) : Prop :=
  ∀ entry ∈ imported, ∃ declaration ∈ imports, entry.1 ∈ declaration.names.map Prod.fst ∧
    ∃ known, modules.find? (fun known => known.name == declaration.source) = some known ∧
      known.interface.get? entry.1 = some entry.2

/-- A program and its interface are what inference has made of a program without types, from
what the modules before it offer. -/
structure Inferred (modules : List Analyzed) (program : Program) (interface : Interface)
    (original : Program) (imported : Interface) (returns : Inference.Returns) : Prop where
  bare : original.bare = original
  imports : ImportedFrom modules program.imports imported
  isNew : ∀ definition ∈ program.definitions, imported.get? definition.name = none
  inferred : Inference.inferProgram imported original = .ok (program, returns)
  exported : interface = exports imported returns program

def ModulesInferred : List Analyzed → Prop
  | [] => True
  | known :: older =>
      (∃ original imported returns,
        Inferred older known.program known.interface original imported returns) ∧
      ModulesInferred older

variable {catalogue : Catalogue} {mods : List Analyzed} {before after : Library}

theorem importedFrom_of_lookup {earlier imports : List Import} {known imported : Interface}
    (loads : Loads (imports.foldlM (fun imported decl => do
      let iface ← lookup mods decl.source decl.span
      lift (Check.importNames iface imported decl)) known) before imported after)
    (earlierFrom : ImportedFrom mods earlier known) :
    ImportedFrom mods (earlier ++ imports) imported := by
  induction imports generalizing known before earlier with
  | nil =>
    obtain ⟨rfl, -⟩ := loads_pure.mp loads
    rwa [append_nil]
  | cons decl rest ih =>
    simp only [foldlM_cons, loads_bind, loads_lift, loads_lookup] at loads
    obtain ⟨between, _, ⟨_, _, ⟨⟨module, found, rfl⟩, rfl⟩, taken, rfl⟩, loadsRest⟩ := loads
    rw [append_cons]
    refine ih loadsRest fun entry mem => ?_
    rcases Check.mem_of_importNames taken mem with old | ⟨listed, told⟩
    · obtain ⟨other, otherMember, from_⟩ := earlierFrom entry old
      exact ⟨other, mem_append_left _ otherMember, from_⟩
    · exact ⟨decl, mem_append_right _ mem_cons_self, listed, module, found, told⟩

theorem inferred_of_lookup {entry : Bool} {annotated : Program} {iface : Interface}
    (loads : Loads (analyzeProgram ⟨catalogue, true⟩ entry (lookup mods) prog) before
      (annotated, iface) after) (bare : prog.definitions.map Definition.bare = prog.definitions) :
    ∃ imported returns, Inferred mods annotated iface prog imported returns := by
  obtain ⟨imported, loadsImports, concluded⟩ := loads_analyzeProgram.mp loads
  obtain ⟨checked, returns, rfl, ⟨-, isInferred⟩ | ⟨⟨⟩, -⟩⟩ := conclude_eq_ok concluded
  have nothing : ImportedFrom mods [] [] := fun entry mem => by cases mem
  have imports := importedFrom_of_lookup loadsImports nothing
  obtain ⟨-, -, isNew, -⟩ := Check.checkDefinitions_eq_ok checked
  obtain ⟨sameImports, keeps⟩ := Inference.bare_inferProgram isInferred
  refine ⟨imported, returns, by rw [Program.bare, bare], sameImports ▸ imports,
    fun defn mem => ?_, isInferred, rfl⟩
  obtain ⟨orig, isOriginal, keepsOne⟩ := keeps.exists_original mem
  rw [keepsOne.name]
  exact (isNew orig isOriginal).2

theorem bare_of_ofText (read : Program.ofText src = .ok prog) :
    prog.definitions.map Definition.bare = prog.definitions :=
  congrArg Program.definitions ((Program.ofText_read src).2 prog read).bare_eq

theorem hereditary_inferred : Hereditary ⟨catalogue, true⟩ ModulesInferred := by
  intro mods known src prog _ inferred _ read loads
  exact ⟨⟨prog, inferred_of_lookup (loads empty) (bare_of_ofText read)⟩, inferred⟩

end Library

/-- A program that is accepted with its types has been inferred, like all the modules behind
it. -/
theorem Site.inferred_of_ofEntry? {catalogue : Catalogue} {file : String} {site : Site}
    (accepted : ofEntry? ⟨catalogue, true⟩ file src = some site) :
    Library.ModulesInferred site.modules ∧
      ∃ iface orig imported returns,
        Library.Inferred site.modules site.program iface orig imported returns := by
  obtain ⟨loads, -⟩ := sound_of_ofEntry? accepted
  obtain ⟨grows, text, extended, iface, read, ⟨_, completed⟩, lookups⟩ :=
    Library.lookup_of_analyzeEntry Library.hereditary_inferred loads trivial trivial
  have bare := Library.bare_of_ofText read
  rw [← completed.definitions] at bare
  exact ⟨grows.valid, iface, extended, Library.inferred_of_lookup (lookups Library.empty) bare⟩

end StoneBoard
