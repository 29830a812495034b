import StoneBoard.Proofs.Faithful

/-!
# Nothing depends on what is kept

What a library keeps saves work and does nothing else: after any requests, modules and their
compiled forms, and the errors in their place, are those that a library gives in which nothing has
been done yet.
-/

namespace StoneBoard

open List

variable {prog : Program}

theorem ModulesSound.find?_of_mem {mods : List Analyzed} (sound : ModulesSound mods)
    {known : Analyzed} (mem : known ∈ mods) :
    mods.find? (fun other => other.name == known.name) = some known := by
  obtain ⟨before, older, split⟩ := append_of_mem mem
  exact sound.find?_of_suffix ⟨before, split.symm⟩ (by simp)

namespace Library

variable {opts : Settings}
variable {mods : List Analyzed} {name : String} {known : Analyzed}
  {lib before after : Library} {span : Span}
variable {between : Library}

/-! ## Compilation without a library -/

theorem linkFrom_congr {compile other : String → Except Error CompiledModule}
    (same : ∀ decl ∈ prog.imports, compile decl.source = other decl.source) :
    linkFrom compile prog = linkFrom other prog := by
  unfold linkFrom
  generalize prog.imports = imports, ([] : Table (CompiledModule × Routine)) = links at same ⊢
  induction imports generalizing links with
  | nil => rfl
  | cons decl rest ih =>
    obtain ⟨sameFirst, sameRest⟩ := List.forall_mem_cons.mp same
    rw [foldlM_cons, foldlM_cons, sameFirst]
    exact bind_congr fun links => ih links sameRest

/-- The compiled form of a module only depends on the catalogue. -/
theorem Derived.compileFrom_eq {others : List Analyzed} (derived : Derived opts mods)
    (sound : ModulesSound mods) (othersDerived : Derived opts others)
    (othersSound : ModulesSound others) {other : Analyzed}
    (found : mods.find? (fun known => known.name == name) = some known)
    (otherFound : others.find? (fun known => known.name == name) = some other) :
    compileFrom mods name = compileFrom others name := by
  induction mods generalizing name known other with
  | nil => cases found
  | cons first older ih =>
    have same := derived.eq_of_find? othersDerived othersSound found otherFound
    obtain ⟨-, firstSound, -, olderSound⟩ := sound
    rw [find?_cons] at found
    split at found
    next isFirst =>
      cases found
      subst same
      rw [beq_iff_eq] at isFirst
      obtain ⟨-, before, otherOlder, split, -⟩ := List.find?_eq_some_iff_append.mp otherFound
      have suffix : first :: otherOlder <:+ others := ⟨before, split.symm⟩
      obtain ⟨-, otherSound, -, -⟩ := othersSound.of_suffix suffix
      have olderSuffix := (suffix_cons first otherOlder).trans suffix
      have isFound : (first :: otherOlder).find? (fun known => known.name == name) =
          some first := by
        simp [isFirst]
      rw [compileFrom_of_suffix othersSound suffix isFound, compileFrom, compileFrom,
        if_pos isFirst, if_pos isFirst]
      -- what the module imports is older, here and there
      rw [linkFrom_congr fun decl mem => ?_]
      obtain ⟨imported, isImported⟩ := firstSound.find?_of_import mem
      obtain ⟨otherImported, otherIsImported⟩ := otherSound.find?_of_import mem
      have inOthers := othersSound.find?_of_suffix olderSuffix otherIsImported
      rw [ih derived.2 olderSound isImported inOthers,
        compileFrom_of_suffix othersSound olderSuffix otherIsImported]
    next differ =>
      have notFirst : first.name ≠ name := by simpa using differ
      rw [compileFrom, if_neg notFirst]
      exact ih derived.2 olderSound found otherFound

/-! ## Libraries after requests -/

/-- All that a library keeps is what the catalogue gives. -/
structure Trusted (settings : Settings) (library : Library) : Prop extends library.Consistent where
  derived : Derived settings library.analyzed

theorem Trusted.faithful (trusted : lib.Trusted opts) : lib.Faithful opts [] :=
  ⟨trusted.toChecked, trusted.derived, by simp⟩

theorem trusted_empty : empty.Trusted opts :=
  ⟨consistent_empty, trivial⟩

theorem trusted_interface (opts : Settings) (atWork : List String) (name : String)
    (span : Span) : Preserves (Trusted opts) (interface opts atWork name span) := by
  refine preserves_of_leaves fun lib trusted => ?_
  have faithful := preserves_interface opts (nil_subset atWork) name span lib trusted.faithful
  have enlarges := enlarges_interface opts atWork name span trusted.toChecked
  exact ⟨(enlarges.grows trusted.toConsistent).consistent, faithful.2.derived⟩

theorem Trusted.of_loads_analyzeModule {atWork : List String} (trusted : before.Trusted opts)
    (loads : Loads (analyzeModule opts atWork name span) before known after) : after.Trusted opts :=
  (trusted_interface opts atWork name span).of_loads (loads_interface loads) trusted

theorem Trusted.loads_compiledModule (trusted : lib.Trusted opts)
    (analyzes : Loads (analyzeModule opts [] name span) lib known between) :
    ∃ home after, Loads (compiledModule opts name span) lib home after ∧
      compileFrom between.analyzed name = .ok home ∧ after.Trusted opts := by
  have betweenTrusted := trusted.of_loads_analyzeModule analyzes
  cases isCached : lib.compiled.get? name with
  | some home =>
    refine ⟨home, lib, ?_, ?_, trusted⟩
    · simp only [compiledModule, loads_bind, loads_get]
      exact ⟨lib, lib, ⟨rfl, rfl⟩, by simp [isCached]⟩
    · have isKept := (trusted.holds name home isCached).compiled
      obtain ⟨_, found⟩ := find?_of_compileFrom isKept
      rcases loads_analyzeModule.mp analyzes with ⟨-, rfl⟩ | ⟨isNew, -⟩
      · exact isKept
      · cases isNew.symm.trans found
  | none =>
    obtain ⟨-, site, isSite⟩ := trusted.toConsistent.loads_analyzeModule analyzes
    obtain ⟨home, compiled, -⟩ := compileFrom_succeeds betweenTrusted.sound isSite
    obtain ⟨after, compiles, furthers, -⟩ := compiles_compileAnalyzed _ span compiled
      betweenTrusted.toConsistent.proper suffix_rfl
    refine ⟨home, after, ?_, compiled, (furthers.grows betweenTrusted.toConsistent).consistent,
      furthers.analyzed ▸ betweenTrusted.derived⟩
    simp only [compiledModule, loads_bind, loads_get]
    refine ⟨lib, lib, ⟨rfl, rfl⟩, ?_⟩
    simp only [isCached, loads_bind, loads_get]
    exact ⟨known, between, analyzes, between, between, ⟨rfl, rfl⟩, compiles⟩

/-- A module that cannot be analyzed is not compiled, for the same reason. -/
theorem Trusted.result_compiledModule {error : Error} (trusted : lib.Trusted opts)
    (refused : result (analyzeModule opts [] name span) lib = (.error error, between)) :
    result (compiledModule opts name span) lib = (.error error, between) := by
  cases isCached : lib.compiled.get? name with
  | some home =>
    obtain ⟨known, found⟩ := find?_of_compileFrom (trusted.holds name home isCached).compiled
    have already : Loads (analyzeModule opts [] name span) lib known lib :=
      loads_analyzeModule.mpr (.inl ⟨found, rfl⟩)
    cases refused.symm.trans already
  | none => simp [compiledModule, isCached, refused]

theorem transparent_compiledModule (opts : Settings) (name : String) (span : Span) :
    Transparent (Trusted opts) (compiledModule opts name span) := by
  constructor
  · refine preserves_of_leaves fun lib trusted => ?_
    rcases analyzes : result (analyzeModule opts [] name span) lib with
      ⟨error | known, between⟩
    · rw [trusted.result_compiledModule analyzes]
      have kept := (trusted_interface opts [] name span lib trusted).2
      rwa [interface, result_bind, analyzes] at kept
    · obtain ⟨home, after, loads, -, afterTrusted⟩ := trusted.loads_compiledModule analyzes
      rwa [show result _ lib = (.ok home, after) from loads]
  · intro first second firstTrusted secondTrusted
    have same := agrees_analyzeModule opts [] name span firstTrusted.faithful secondTrusted.faithful
    rcases analyzes : result (analyzeModule opts [] name span) first with
      ⟨error | known, between⟩ <;>
    rcases analyzesThere : result (analyzeModule opts [] name span) second with
      ⟨otherError | other, betweenThere⟩ <;>
    rw [analyzes, analyzesThere] at same <;> cases same
    · rw [firstTrusted.result_compiledModule analyzes,
        secondTrusted.result_compiledModule analyzesThere]
    · obtain ⟨home, after, loads, compiled, -⟩ := firstTrusted.loads_compiledModule analyzes
      obtain ⟨homeThere, afterThere, loadsThere, compiledThere, -⟩ :=
        secondTrusted.loads_compiledModule analyzesThere
      have betweenTrusted := firstTrusted.of_loads_analyzeModule analyzes
      have betweenThereTrusted := secondTrusted.of_loads_analyzeModule analyzesThere
      have sameHome := betweenTrusted.derived.compileFrom_eq betweenTrusted.sound
        betweenThereTrusted.derived betweenThereTrusted.sound (analyzed?_of_loads analyzes)
        (analyzed?_of_loads analyzesThere)
      rw [compiled, compiledThere] at sameHome
      rw [show result _ first = (.ok home, after) from loads,
        show result _ second = (.ok homeThere, afterThere) from loadsThere, sameHome]

/-! ## Requests -/

theorem Trusted.perform (trusted : lib.Trusted opts) (request : Request) :
    (request.perform opts lib).Trusted opts :=
  request.preserves (trusted_interface opts)
    (fun name span => (transparent_compiledModule opts name span).preserves) trusted

theorem Trusted.afterAll (trusted : lib.Trusted opts) (requests : List Request) :
    (lib.afterAll (requests.map fun request => (opts, request))).Trusted opts := by
  induction requests generalizing lib with
  | nil => exact trusted
  | cons first rest ih => exact ih (trusted.perform first)

end Library

open Library

/-- What a library has been asked for before does not matter while the catalogue is the same: the
interfaces and the compiled forms that it gives, or the errors, are those of a library in which
nothing has been done, and so is all that it keeps.  No module is at work after any request. -/
theorem kept_modules_transparent (settings : Settings) (requests : List Request) :
    let library := Library.empty.afterAll (requests.map fun request => (settings, request))
    (∀ name span,
      (result (interface settings [] name span) library).1 =
        fresh (interface settings [] name span) ∧
      ∃ after, Desk.Ends (fun depth => (Desk.interface settings depth name span).run ⟨library, []⟩)
        (fresh (interface settings [] name span), ⟨after, []⟩)) ∧
    (∀ name span,
      (result (compiledModule settings name span) library).1 =
        fresh (compiledModule settings name span) ∧
      ∃ after,
        Desk.Ends (fun depth => (Desk.compiledModule settings depth name span).run ⟨library, []⟩)
          (fresh (compiledModule settings name span), ⟨after, []⟩)) ∧
    (∀ known ∈ library.analyzed, ∀ span,
      fresh (analyzeModule settings [] known.name span) = .ok known) ∧
    (∀ name home, library.compiled.get? name = some home → ∀ span,
      fresh (compiledModule settings name span) = .ok home) ∧
    Desk.Ends (fun depth => Desk.afterAll settings depth ⟨Library.empty, []⟩ requests)
      ⟨library, []⟩ := by
  intro library
  have trusted : library.Trusted settings := trusted_empty.afterAll requests
  have emptyTrusted : Library.empty.Trusted settings := trusted_empty
  refine ⟨fun name span => ?_, fun name span => ?_, fun known member span => ?_,
    fun name home isKept span => ?_, Desk.ends_afterAll settings requests consistent_empty⟩
  · have same : (result (interface settings [] name span) library).1 =
        fresh (interface settings [] name span) := by
      rw [outcome_interface, agrees_analyzeModule settings [] name span trusted.faithful
        emptyTrusted.faithful, ← outcome_interface]
      rfl
    exact ⟨same, (Desk.performs_interface settings name span library).ends same⟩
  · have same : (result (compiledModule settings name span) library).1 =
        fresh (compiledModule settings name span) :=
      (transparent_compiledModule settings name span).agrees trusted emptyTrusted
    exact ⟨same, (Desk.performs_compiledModule settings name span trusted.toConsistent).ends same⟩
  · have isKnown : library.analyzed? known.name = some known :=
      trusted.sound.find?_of_mem member
    have same := agrees_analyzeModule settings [] known.name span trusted.faithful
      emptyTrusted.faithful
    have already : Loads (analyzeModule settings [] known.name span) library known library :=
      loads_analyzeModule.mpr (.inl ⟨isKnown, rfl⟩)
    rw [show result _ library = (.ok known, library) from already] at same
    exact same.symm
  · have already : result (compiledModule settings name span) library = (.ok home, library) := by
      simp [compiledModule, isKept]
    have same := (transparent_compiledModule settings name span).agrees trusted emptyTrusted
    rw [already] at same
    exact same.symm

def brokenCatalogue : Catalogue :=
  (Catalogue.empty.addText "Base" "function f()\x7breturn(1)\x7d").addText "Broken"
    "from Base import(f)from None import(g)"

def brokenRequests : List Request :=
  [.interface "Broken" .nowhere, .compiledModule "Base" .nowhere]

theorem base_transparent_after_failure :
    ∃ home,
      (Library.empty.afterAll
        (brokenRequests.map fun request => (⟨brokenCatalogue, true⟩, request))).compiled.get?
          "Base" = some home ∧
      fresh (compiledModule ⟨brokenCatalogue, true⟩ "Base" .nowhere) = .ok home := by
  obtain ⟨-, -, -, kept, -⟩ := kept_modules_transparent ⟨brokenCatalogue, true⟩ brokenRequests
  have isKept : ((Library.empty.afterAll (brokenRequests.map fun request =>
      (⟨brokenCatalogue, true⟩, request))).compiled.get? "Base").isSome = true := by
    decide +kernel
  obtain ⟨home, isHome⟩ := Option.isSome_iff_exists.mp isKept
  exact ⟨home, isHome, kept "Base" home isHome .nowhere⟩

end StoneBoard
