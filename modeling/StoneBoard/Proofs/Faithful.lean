import StoneBoard.Proofs.Nesting

/-!
# Modules that are kept

While the catalogue stays the same, every module that a library keeps is what the analysis of its
text gives with the modules that were there before.  So it does not matter when a module has been
analyzed, and what for: any other library would come to the same module, or to the same error.
-/

namespace StoneBoard

open List

namespace Library

variable {opts : Settings}
variable {mods : List Analyzed} {name : String} {span : Span} {before after lib : Library}
  {entry : Bool} {resolve : String → Span → Loading Interface} {missing atWork : List String}
  {known : Analyzed}
variable {change : Error → Error} {text : String × String}

/-! ## Interfaces of modules that are there -/

section Following

variable {resolve : String → Span → Loading Interface} {mods : List Analyzed}
  {valid : Library → Prop}
variable {prog : Program} {analyzed : Program × Interface}

/-- Imports that succeed with some modules succeed in any other way that gives the interfaces of
these modules, also after the imports of other names. -/
theorem loads_imports_of_lookup {imported extra : Interface}
    (imports : Loads (importAll (lookup mods) prog) lib imported lib)
    (follows : ∀ decl ∈ prog.imports, ∀ known,
      mods.find? (fun known => known.name == decl.source) = some known →
      ∀ before, valid before → ∃ after,
        Loads (resolve decl.source decl.span) before known.interface after ∧
          valid after) (apart : ∀ name ∈ importedNames prog.imports, extra.get? name = none)
    (isValid : valid before) : ∃ after, Loads (prog.imports.foldlM (fun imported decl => do
      let iface ← resolve decl.source decl.span
      lift (Check.importNames iface imported decl)) extra) before (imported ++ extra)
        after ∧ valid after := by
  unfold importAll at imports
  change ∃ after, Loads (prog.imports.foldlM _ ([] ++ extra)) before (imported ++ extra) after ∧
    valid after
  generalize prog.imports = all, ([] : Interface) = known at imports follows apart ⊢
  induction all generalizing known before with
  | nil =>
    obtain ⟨rfl, -⟩ := loads_pure.mp imports
    exact ⟨before, loads_pure.mpr ⟨rfl, rfl⟩, isValid⟩
  | cons decl rest ih =>
    simp only [foldlM_cons, loads_bind, loads_lift, loads_lookup] at imports
    obtain ⟨middle, _, ⟨_, _, ⟨⟨module, found, rfl⟩, rfl⟩, taken, rfl⟩, importsRest⟩ := imports
    obtain ⟨followsFirst, followsRest⟩ := List.forall_mem_cons.mp follows
    obtain ⟨apartFirst, apartRest⟩ := List.forall_mem_append.mp apart
    obtain ⟨between, resolves, betweenValid⟩ := followsFirst module found before isValid
    obtain ⟨after, loadsRest, afterValid⟩ :=
      ih betweenValid middle importsRest followsRest apartRest
    have takenAfter := Check.importNames_append
      (fun entry mem => apartFirst entry.1 (mem_map_of_mem mem)) taken
    refine ⟨after, ?_, afterValid⟩
    simp only [foldlM_cons, loads_bind, loads_lift]
    exact ⟨middle ++ extra, between, ⟨_, between, resolves, takenAfter, rfl⟩, loadsRest⟩

/-- A program that can be analyzed with some modules can be analyzed in any other way that gives
the interfaces of these modules. -/
theorem loads_of_lookup (loads :
      Loads (analyzeProgram opts entry (lookup mods) prog) lib analyzed lib)
    (follows : ∀ decl ∈ prog.imports, ∀ known,
      mods.find? (fun known => known.name == decl.source) = some known →
      ∀ before, valid before → ∃ after,
        Loads (resolve decl.source decl.span) before known.interface after ∧
          valid after) (isValid : valid before) :
    ∃ after, Loads (analyzeProgram opts entry resolve prog) before analyzed after ∧
      valid after := by
  obtain ⟨imported, imports, concluded⟩ := loads_analyzeProgram.mp loads
  have apart : ∀ name ∈ importedNames prog.imports, Table.get? ([] : Interface) name = none :=
    fun _ _ => rfl
  obtain ⟨after, importsAfter, afterValid⟩ := loads_imports_of_lookup imports follows apart isValid
  rw [append_nil] at importsAfter
  exact ⟨after, loads_analyzeProgram.mpr ⟨imported, importsAfter, concluded⟩, afterValid⟩

theorem found_of_lookup
    (loads : Loads (analyzeProgram opts entry (lookup mods) prog) before analyzed after)
    {decl : Import} (mem : decl ∈ prog.imports) :
    ∃ known, mods.find? (fun known => known.name == decl.source) = some known := by
  obtain ⟨_, imports, -⟩ := loads_analyzeProgram.mp loads
  obtain ⟨known, found, -⟩ := (offered_of_lookup imports).1 decl mem
  exact ⟨known, found⟩

end Following

/-! ## Faithful libraries -/

/-- Every module is what the analysis of its text gives with those that come after it. -/
def Derived (settings : Settings) : List Analyzed → Prop
  | [] => True
  | known :: older =>
      (∃ source program,
        settings.catalogue.supplies.get? known.name = some (.text known.file source) ∧
        Program.ofText source = .ok program ∧
        ∀ library, Loads (analyzeProgram settings false (lookup older) program) library
          (known.program, known.interface) library) ∧
      Derived settings older

/-- The modules of a library are those that the catalogue gives, and some are not among them. -/
structure Faithful (settings : Settings) (missing : List String) (library : Library) : Prop
    extends library.Checked where
  derived : Derived settings library.analyzed
  absent : ∀ known ∈ library.analyzed, known.name ∉ missing

theorem faithful_empty (missing : List String) : empty.Faithful opts missing :=
  ⟨consistent_empty.toChecked, trivial, forall_mem_nil _⟩

theorem Faithful.start (faithful : lib.Faithful opts missing)
    (isNew : lib.analyzed? name = none) : lib.Faithful opts (missing ++ [name]) := by
  refine ⟨faithful.toChecked, faithful.derived, fun known mem => ?_⟩
  have differ := List.find?_eq_none.mp isNew known mem
  rw [mem_append, mem_singleton, not_or]
  exact ⟨faithful.absent known mem, by simpa using differ⟩

theorem hereditary_derived (opts : Settings) :
    Hereditary opts fun mods => Offering mods ∧ Derived opts mods := by
  intro mods known src prog sound valid supplied read loads
  exact ⟨hereditary_offering opts sound valid.1 supplied read loads,
    ⟨src, prog, supplied, read, loads⟩, valid.2⟩

/-- Libraries stay faithful when modules are looked for, and none that is at work is added. -/
theorem preserves_interface (opts : Settings) {missing atWork : List String}
    (within : missing ⊆ atWork) (name : String) (span : Span) :
    Preserves (Faithful opts missing) (interface opts atWork name span) := by
  refine preserves_of_leaves fun lib faithful => ?_
  have grown := ((resolves_interface (hereditary_derived opts) atWork).preserves lib name
    span lib (.refl faithful.sound ⟨faithful.toOffering, faithful.derived⟩)).2
  refine ⟨⟨grown.valid.1, grown.sound⟩, grown.valid.2, fun known mem isMissing => ?_⟩
  refine grown.fresh known.name (within isMissing) (fun other isOther same => ?_) known mem rfl
  exact faithful.absent other isOther (same ▸ isMissing)

/-! ## Modules that are loaded again -/

theorem Derived.of_suffix {longer : List Analyzed} (derived : Derived opts longer)
    (suffix : mods <:+ longer) : Derived opts mods := by
  obtain ⟨extra, rfl⟩ := suffix
  induction extra with
  | nil => exact derived
  | cons known rest ih => exact ih derived.2

theorem Derived.eq_of_find? {others : List Analyzed} (derived : Derived opts mods)
    (othersDerived : Derived opts others) (othersSound : ModulesSound others) {other : Analyzed}
    (found : mods.find? (fun known => known.name == name) = some known)
    (otherFound : others.find? (fun known => known.name == name) = some other) : known = other := by
  induction mods generalizing name known other with
  | nil => cases found
  | cons first older ih =>
    obtain ⟨⟨src, prog, supplied, read, analyzed⟩, olderDerived⟩ := derived
    rw [find?_cons] at found
    split at found
    next isFirst =>
      cases found
      obtain ⟨isOther, before, otherOlder, split, -⟩ := List.find?_eq_some_iff_append.mp otherFound
      have suffix : other :: otherOlder <:+ others := ⟨before, split.symm⟩
      obtain ⟨otherSource, otherProgram, otherSupplied, otherRead, otherAnalyzed⟩ :=
        (othersDerived.of_suffix suffix).1
      -- the two have the same text, ...
      rw [beq_iff_eq] at isFirst isOther
      rw [isOther, ← isFirst, supplied] at otherSupplied
      injection otherSupplied with sameSupply
      injection sameSupply with sameFile sameSource
      rw [← sameSource, read] at otherRead
      injection otherRead with sameProgram
      subst sameProgram
      -- ... and have found the same interfaces
      have again : ∃ after, Loads (analyzeProgram opts false (lookup otherOlder) prog) empty
          (first.program, first.interface) after ∧ True := by
        refine loads_of_lookup (analyzed empty) (fun decl mem module isModule between _ =>
          ⟨between, loads_lookup.mpr ⟨?_, rfl⟩, trivial⟩) trivial
        obtain ⟨otherModule, otherIsModule⟩ := found_of_lookup (otherAnalyzed empty) mem
        have inOthers := othersSound.find?_of_suffix ((suffix_cons other _).trans suffix)
          otherIsModule
        exact ⟨otherModule, otherIsModule, by rw [ih olderDerived isModule inOthers]⟩
      obtain ⟨after, loads, -⟩ := again
      have sameResult := loads.symm.trans (otherAnalyzed empty)
      simp only [Prod.mk.injEq, Except.ok.injEq] at sameResult
      obtain ⟨⟨sameAnnotated, sameInterface⟩, -⟩ := sameResult
      cases first
      cases other
      simp_all
    next => exact ih olderDerived found otherFound

/-- A module that one library knows is found again from any other library. -/
theorem Faithful.reload (derived : Derived opts mods) (sound : ModulesSound mods)
    (idle : ∀ other ∈ mods, other.name ∉ atWork)
    (found : mods.find? (fun known => known.name == name) = some known) (span : Span)
    (faithful : lib.Faithful opts atWork) :
    ∃ after, Loads (analyzeModule opts atWork name span) lib known after := by
  induction mods generalizing atWork name known span lib with
  | nil => cases found
  | cons first older ih =>
    have firstDerived := derived
    obtain ⟨⟨src, prog, supplied, read, analyzed⟩, olderDerived⟩ := derived
    obtain ⟨isNew, -, -, olderSound⟩ := sound
    obtain ⟨firstIdle, olderIdle⟩ := List.forall_mem_cons.mp idle
    cases isKnown : lib.analyzed? name with
    | some other =>
      cases firstDerived.eq_of_find? faithful.derived faithful.sound found isKnown
      exact ⟨lib, loads_analyzeModule.mpr (.inl ⟨isKnown, rfl⟩)⟩
    | none =>
      rw [find?_cons] at found
      split at found
      next isFirst =>
        cases found
        rw [beq_iff_eq] at isFirst
        subst isFirst
        have olderIdle : ∀ other ∈ older, other.name ∉ atWork ++ [first.name] := by
          intro other mem
          simpa using ⟨olderIdle other mem, isNew other mem⟩
        obtain ⟨between, loads, -⟩ := loads_of_lookup (analyzed empty)
          (fun decl mem module isModule before beforeFaithful => by
            obtain ⟨after, loads⟩ :=
              ih olderDerived olderSound olderIdle isModule decl.span beforeFaithful
            have resolves := loads_interface loads
            exact ⟨after, resolves, (preserves_interface _ (List.Subset.refl _) _ _).of_loads
              resolves beforeFaithful⟩)
          (faithful.start isKnown)
        refine ⟨_, loads_analyzeModule.mpr (.inr ⟨isKnown, firstIdle, (first.file, src),
          Catalogue.textOf_eq_ok.mpr supplied, Library.loads_readModule.mpr
            ⟨prog, read, first.program, first.interface, between, loads, rfl, rfl⟩⟩)⟩
      next => exact ih olderDerived olderSound olderIdle found span faithful

/-! ## Modules that are loaded twice -/

/-- What something gives does not depend on the library, as long as it is a valid one. -/
structure Transparent {α : Type} (valid : Library → Prop) (action : Loading α) : Prop where
  preserves : Preserves valid action
  agrees : ∀ ⦃first second : Library⦄, valid first → valid second →
    (result action first).1 = (result action second).1

section Transparent

variable {α β : Type} {valid : Library → Prop}

theorem transparent_pure {value : α} : Transparent valid (pure value) := ⟨preserves_pure, by simp⟩

theorem transparent_lift {outcome : Except Error α} : Transparent valid (lift outcome) :=
  ⟨preserves_lift, by simp⟩

theorem Transparent.bind {action : Loading β} {next : β → Loading α}
    (transparent : Transparent valid action)
    (nextTransparent : ∀ value, Transparent valid (next value)) :
    Transparent valid (action >>= next) := by
  refine ⟨transparent.preserves.bind fun value => (nextTransparent value).preserves, ?_⟩
  intro first second firstValid secondValid
  have same := transparent.agrees firstValid secondValid
  have firstKept := (transparent.preserves first firstValid).2
  have secondKept := (transparent.preserves second secondValid).2
  rw [result_bind, result_bind]
  generalize result action first = outcome, result action second = other at *
  rcases outcome with ⟨error | value, afterFirst⟩ <;>
    rcases other with ⟨otherError | otherValue, afterSecond⟩ <;> cases same
  · rfl
  · exact (nextTransparent value).agrees firstKept secondKept

theorem Transparent.rethrow {action : Loading α} (transparent : Transparent valid action) :
    Transparent valid (rethrow change action) := by
  refine ⟨transparent.preserves.rethrow, fun first second firstValid secondValid => ?_⟩
  have same := transparent.agrees firstValid secondValid
  rw [result_rethrow, result_rethrow]
  generalize result action first = outcome, result action second = other at same ⊢
  rcases outcome with ⟨error | value, afterFirst⟩ <;>
    rcases other with ⟨otherError | otherValue, afterSecond⟩ <;> cases same <;> rfl

theorem transparent_analyzeProgram
    (transparent : ∀ src span, Transparent valid (resolve src span)) (prog : Program) :
    Transparent valid (analyzeProgram opts entry resolve prog) := by
  rw [analyzeProgram_eq]
  refine Transparent.bind ?_ fun _ => transparent_lift
  unfold importAll
  generalize prog.imports = imports, ([] : Interface) = known
  induction imports generalizing known with
  | nil => exact transparent_pure
  | cons decl rest ih =>
    rw [foldlM_cons]
    exact ((transparent _ _).bind fun _ => transparent_lift).bind fun _ => ih _

end Transparent

theorem Faithful.agrees_of_analyzed? {first second : Library}
    (firstFaithful : first.Faithful opts atWork) (secondFaithful : second.Faithful opts atWork)
    (isKnown : first.analyzed? name = some known) :
    (result (analyzeModule opts atWork name span) first).1 =
      (result (analyzeModule opts atWork name span) second).1 := by
  obtain ⟨after, loads⟩ := secondFaithful.reload firstFaithful.derived firstFaithful.sound
    firstFaithful.absent isKnown span
  have already : Loads (analyzeModule opts atWork name span) first known first :=
    loads_analyzeModule.mpr (.inl ⟨isKnown, rfl⟩)
  rw [show result _ second = (.ok known, after) from loads,
    show result _ first = (.ok known, first) from already]

theorem outcome_interface : (result (interface opts atWork name span) lib).1 =
      (result (analyzeModule opts atWork name span) lib).1.map Analyzed.interface := by
  unfold interface
  rw [result_bind]
  rcases result (analyzeModule opts atWork name span) lib with ⟨_ | _, _⟩ <;> rfl

theorem outcome_readModule : (result (readModule opts atWork name span text) lib).1 =
      (result (rethrow (fun error => (error.inFile text.1).reraise name span)
        (lift (Program.ofText text.2) >>=
          analyzeProgram opts false (interface opts (atWork ++ [name])))) lib).1.map
        fun analyzed => ⟨name, text.1, analyzed.1, analyzed.2⟩ := by
  unfold readModule
  rw [result_bind]
  rcases result (rethrow _ _) lib with ⟨_ | _, _⟩ <;> rfl

/-- Libraries that are faithful to one catalogue find the same modules, and the same errors. -/
theorem agrees_analyzeModule (opts : Settings) (atWork : List String) (name : String)
    (span : Span) {first second : Library} (firstFaithful : first.Faithful opts atWork)
    (secondFaithful : second.Faithful opts atWork) :
    (result (analyzeModule opts atWork name span) first).1 =
      (result (analyzeModule opts atWork name span) second).1 := by
  cases isKnown : first.analyzed? name with
  | some known => exact firstFaithful.agrees_of_analyzed? secondFaithful isKnown
  | none =>
    cases isKnownThere : second.analyzed? name with
    | some known => exact (secondFaithful.agrees_of_analyzed? firstFaithful isKnownThere).symm
    | none =>
      simp only [analyzeModule_eq, result_bind, result_get, isKnown, isKnownThere]
      split
      next => rfl
      next notWorking =>
        rw [result_bind, result_bind, result_lift, result_lift]
        cases isText : opts.catalogue.textOf name span with
        | error error => rfl
        | ok text =>
          have fewer := idleCount_lt_of_textOf isText notWorking
          have inner : ∀ src innerSpan, Transparent (Faithful opts (atWork ++ [name]))
              (interface opts (atWork ++ [name]) src innerSpan) := by
            refine fun src innerSpan => ⟨preserves_interface _ (List.Subset.refl _) _ _, ?_⟩
            intro _ _ innerFirst innerSecond
            rw [outcome_interface, outcome_interface,
              agrees_analyzeModule opts (atWork ++ [name]) src innerSpan innerFirst
                innerSecond]
          dsimp only
          rw [outcome_readModule, outcome_readModule]
          refine congrArg _ (Transparent.agrees (Transparent.rethrow ?_)
            (firstFaithful.start isKnown) (secondFaithful.start isKnownThere))
          exact transparent_lift.bind (transparent_analyzeProgram inner)
termination_by idleCount opts.catalogue.supplies atWork

end Library

end StoneBoard
