import StoneBoard.Proofs.Annotation
import StoneBoard.Proofs.Checked
import StoneBoard.Proofs.Loading
import StoneBoard.Proofs.Reading

/-!
# Programs that have been accepted

A program that the library accepts is sound: its definitions are regular for the meaning that
names have in it, its own names are free, and whatever it imports is there.  The modules
behind it are sound as well, and each of them offers what its interface says.
-/

namespace StoneBoard

open List

variable {src name : String} {site : Site} {defn : Definition} {imported after : Interface}
variable {decl : Import} {other : Site} {imports : List Import} {entry : Bool}

/-! ## Sound programs -/

namespace Site

def module? : List Analyzed → String → Option Site
  | [], _ => none
  | known :: older, source =>
      if known.name = source then some ⟨known.program, older⟩ else module? older source

theorem exported?_eq (name : String) (mods : List Analyzed) (src : String) :
    exported? name mods src = (module? mods src).bind (routine? · name) := by
  induction mods with
  | nil => rfl
  | cons known older ih =>
    rw [exported?, module?]
    split
    · rfl
    · exact ih

end Site

def importedNames (imports : List Import) : List String :=
  imports.flatMap fun declaration => declaration.names.map Prod.fst

namespace Program

variable {prog : Program} {name : String}

theorem importOf?_eq_some (found : prog.importOf? name = some decl) :
    decl ∈ prog.imports ∧ name ∈ decl.names.map Prod.fst := by
  have listed := find?_some found
  simp only [any_eq_true, beq_iff_eq] at listed
  exact ⟨mem_of_find?_eq_some found, List.mem_map.mpr listed⟩

theorem importOf?_eq_none : prog.importOf? name = none ↔ name ∉ importedNames prog.imports := by
  simp [importOf?, importedNames]

end Program

/-- What holds of a program that has been accepted. -/
structure Site.Sound (site : Site) : Prop where
  regular : ∀ definition ∈ site.program.definitions,
    definition.Regular site.shape? ∧ definition.Named
  nodup : (site.program.definitions.map Definition.name).Nodup
  free : ∀ definition ∈ site.program.definitions, Builtin.isDefined definition.name = false
  /-- what is imported is there, and is imported once -/
  sources : ∀ declaration ∈ site.program.imports,
    ∃ other, Site.module? site.modules declaration.source = some other ∧
      ∀ entry ∈ declaration.names, (other.routine? entry.1).isSome
  importsNodup : (importedNames site.program.imports).Nodup

/-- An interface tells the shapes of all that a program gives to others. -/
def Site.Offers (site : Site) (interface : Interface) : Prop :=
  ∀ name, (interface.get? name).map RoutineInfo.shape =
    if name = "Main" then none else (site.routine? name).map fun known => known.2.shape

def ModulesSound : List Analyzed → Prop
  | [] => True
  | known :: older =>
      (∀ other ∈ older, other.name ≠ known.name) ∧ Site.Sound ⟨known.program, older⟩ ∧
        Site.Offers ⟨known.program, older⟩ known.interface ∧ ModulesSound older

namespace ModulesSound

variable {mods : List Analyzed}

theorem module? (sound : ModulesSound mods) (found : Site.module? mods src = some site) :
    site.Sound ∧ ModulesSound site.modules := by
  induction mods with
  | nil => cases found
  | cons known older ih =>
    obtain ⟨-, here, -, there⟩ := sound
    rw [Site.module?] at found
    split at found
    · cases found
      exact ⟨here, there⟩
    · exact ih there found

theorem offers (sound : ModulesSound mods) {src : String} {known : Analyzed}
    (found : mods.find? (fun known => known.name == src) = some known) :
    ∃ site, Site.module? mods src = some site ∧ site.Offers known.interface := by
  induction mods with
  | nil => cases found
  | cons first older ih =>
    obtain ⟨-, -, offers, there⟩ := sound
    rw [find?_cons] at found
    rw [Site.module?]
    split at found
    next same =>
      cases found
      rw [if_pos (beq_iff_eq.mp same)]
      exact ⟨_, rfl, offers⟩
    next differ =>
      rw [if_neg (by simpa using differ)]
      exact ih there found

theorem mem_of_module? (found : Site.module? mods src = some site) :
    ∃ known ∈ mods, known.name = src ∧ known.program = site.program := by
  induction mods with
  | nil => cases found
  | cons known older ih =>
    rw [Site.module?] at found
    split at found
    next same =>
      cases found
      exact ⟨known, mem_cons_self, same, rfl⟩
    next =>
      obtain ⟨other, mem, same⟩ := ih found
      exact ⟨other, mem_cons_of_mem _ mem, same⟩

theorem module?_of_suffix {longer : List Analyzed} (sound : ModulesSound longer)
    (suffix : mods <:+ longer) (found : Site.module? mods src = some site) :
    Site.module? longer src = some site := by
  obtain ⟨extra, rfl⟩ := suffix
  induction extra with
  | nil => exact found
  | cons known rest ih =>
    obtain ⟨isNew, -, -, there⟩ := sound
    obtain ⟨other, mem, same, -⟩ := mem_of_module? found
    have differ := isNew other (mem_append_right _ mem)
    rw [cons_append, Site.module?, if_neg (fun equal => differ (same.trans equal.symm))]
    exact ih there

theorem find?_of_suffix {longer : List Analyzed} (sound : ModulesSound longer)
    (suffix : mods <:+ longer) {known : Analyzed}
    (found : mods.find? (fun known => known.name == src) = some known) :
    longer.find? (fun known => known.name == src) = some known := by
  obtain ⟨extra, rfl⟩ := suffix
  induction extra with
  | nil => exact found
  | cons first rest ih =>
    obtain ⟨isNew, -, -, there⟩ := sound
    have mem := mem_append_right rest (mem_of_find?_eq_some found)
    have named : known.name = src := by simpa using find?_some found
    have differ : ¬ first.name = src := fun same =>
      isNew known mem (named.trans same.symm)
    rw [cons_append, find?_cons_of_neg (by simpa using differ)]
    exact ih there

theorem of_suffix {longer : List Analyzed} (sound : ModulesSound longer)
    (suffix : mods <:+ longer) : ModulesSound mods := by
  obtain ⟨extra, rfl⟩ := suffix
  induction extra with
  | nil => exact sound
  | cons known rest ih => exact ih sound.2.2.2

theorem exported? (sound : ModulesSound mods)
    (found : Site.exported? name mods src = some (site, defn)) :
    site.Sound ∧ ModulesSound site.modules ∧ defn ∈ site.program.definitions ∧
      defn.name = name := by
  induction mods generalizing src with
  | nil => cases found
  | cons known older ih =>
    obtain ⟨-, here, -, there⟩ := sound
    rw [Site.exported?] at found
    split at found
    · split at found
      next own isOwn =>
        cases found
        exact ⟨here, there, mem_of_find?_eq_some isOwn, by
          simpa using find?_some isOwn⟩
      next =>
        split at found
        · exact ih there found
        · cases found
    · exact ih there found

end ModulesSound

theorem Site.Sound.routine? (sound : site.Sound) (mods : ModulesSound site.modules)
    (found : site.routine? name = some (other, defn)) :
    other.Sound ∧ ModulesSound other.modules ∧ defn ∈ other.program.definitions ∧
      defn.name = name := by
  rw [Site.routine?] at found
  split at found
  next own isOwn =>
    cases found
    exact ⟨sound, mods, mem_of_find?_eq_some isOwn, by simpa using find?_some isOwn⟩
  next =>
    split at found
    · exact mods.exported? found
    · cases found

/-- No name of a builtin stands for a definition. -/
theorem Site.Sound.reserved (sound : site.Sound) (mods : ModulesSound site.modules)
    (isBuiltin : Builtin.isDefined name = true) : site.routine? name = none := by
  cases found : site.routine? name with
  | none => rfl
  | some known =>
    obtain ⟨otherSound, -, mem, rfl⟩ := sound.routine? mods found
    rw [otherSound.free _ mem] at isBuiltin
    cases isBuiltin

theorem Site.Sound.find?_of_import (sound : site.Sound) {decl : Import}
    (mem : decl ∈ site.program.imports) :
    ∃ known, site.modules.find? (fun known => known.name == decl.source) = some known := by
  obtain ⟨_, found, -⟩ := sound.sources decl mem
  obtain ⟨known, isModule, named, -⟩ := ModulesSound.mem_of_module? found
  rw [← Option.isSome_iff_exists, find?_isSome]
  exact ⟨known, isModule, beq_iff_eq.mpr named⟩

/-! ## Imports -/

namespace Check

variable {names : List (String × Span)}

theorem importNames_eq_ok {iface : Interface}
    (succeeds : names.foldlM (importName src iface) imported = .ok after) :
    (names.map Prod.fst).Nodup ∧
      (∀ entry ∈ names, entry.1 ≠ "Main" ∧ imported.get? entry.1 = none ∧
        (iface.get? entry.1).isSome) ∧
      ∀ name, after.get? name =
        if name ∈ names.map Prod.fst then iface.get? name else imported.get? name := by
  induction names generalizing imported with
  | nil =>
    cases succeeds
    simp
  | cons first rest ih =>
    obtain ⟨between, imports, succeedsRest⟩ := bind_eq_ok.mp succeeds
    obtain ⟨notMain, absent, info, offered, rfl⟩ := importName_eq_ok.mp imports
    obtain ⟨restNodup, restNew, known⟩ := ih succeedsRest
    refine ⟨?_, List.forall_mem_cons.mpr ⟨⟨notMain, absent, by simp [offered]⟩,
      fun entry mem => ?_⟩, fun name => ?_⟩
    · rw [map_cons, nodup_cons]
      refine ⟨fun again => ?_, restNodup⟩
      obtain ⟨entry, mem, same⟩ := List.mem_map.mp again
      have isNew := (restNew entry mem).2.1
      simp [Table.get?_cons, same] at isNew
    · obtain ⟨notMain, isNew, isOffered⟩ := restNew entry mem
      rw [Table.get?_cons] at isNew
      split at isNew
      · cases isNew
      · exact ⟨notMain, isNew, isOffered⟩
    · simp only [known, Table.get?_cons, map_cons, mem_cons]
      by_cases inRest : name ∈ rest.map Prod.fst
      · simp [inRest]
      · by_cases same : name = first.1 <;> simp [inRest, same, offered]

theorem importNames_append {iface extra : Interface}
    (apart : ∀ entry ∈ names, extra.get? entry.1 = none)
    (succeeds : names.foldlM (importName src iface) imported = .ok after) :
    names.foldlM (importName src iface) (imported ++ extra) = .ok (after ++ extra) := by
  induction names generalizing imported with
  | nil =>
    cases succeeds
    rfl
  | cons first rest ih =>
    obtain ⟨firstApart, restApart⟩ := List.forall_mem_cons.mp apart
    obtain ⟨between, imports, succeedsRest⟩ := bind_eq_ok.mp succeeds
    obtain ⟨notMain, isNew, info, offered, rfl⟩ := importName_eq_ok.mp imports
    refine bind_eq_ok.mpr ⟨_, importName_eq_ok.mpr ⟨notMain, ?_, info, offered, rfl⟩,
      ih restApart succeedsRest⟩
    rw [Table.get?_append, isNew, firstApart]
    rfl

end Check

/-- What declarations add to the names imported before: the shapes of what they name, as the
modules give it. -/
structure Imports (modules : List Analyzed) (imports : List Import)
    (before after : Interface) : Prop where
  nodup : (importedNames imports).Nodup
  isNew : ∀ name ∈ importedNames imports, name ≠ "Main" ∧ before.get? name = none
  sources : ∀ declaration ∈ imports, ∃ other,
    Site.module? modules declaration.source = some other ∧
      ∀ entry ∈ declaration.names, (after.get? entry.1).isSome ∧
        (after.get? entry.1).map RoutineInfo.shape =
          (other.routine? entry.1).map fun known => known.2.shape
  others : ∀ name, name ∉ importedNames imports → after.get? name = before.get? name

namespace Imports

variable {mods : List Analyzed}

theorem nil (mods : List Analyzed) (imported : Interface) : Imports mods [] imported imported where
  nodup := nodup_nil
  isNew _ mem := by cases mem
  sources _ mem := by cases mem
  others _ _ := rfl

theorem cons {iface before between : Interface}
    (found : Site.module? mods decl.source = some other) (offers : other.Offers iface)
    (first : Check.importNames iface before decl = .ok between)
    (rest : Imports mods imports between after) : Imports mods (decl :: imports) before after := by
  obtain ⟨nodup, isNew, known⟩ := Check.importNames_eq_ok first
  have split : importedNames (decl :: imports) =
      decl.names.map Prod.fst ++ importedNames imports := rfl
  have apart : ∀ name ∈ decl.names.map Prod.fst, name ∉ importedNames imports := by
    intro name listed again
    obtain ⟨entry, mem, rfl⟩ := List.mem_map.mp listed
    have absent := (rest.isNew _ again).2
    rw [known, if_pos listed] at absent
    simpa [absent] using (isNew entry mem).2.2
  refine ⟨?_, fun name mem => ?_, List.forall_mem_cons.mpr ⟨?_, rest.sources⟩,
    fun name absent => ?_⟩
  · rw [split, nodup_append']
    exact ⟨nodup, rest.nodup, fun name listed again => apart name listed again⟩
  · rcases List.mem_append.mp (split ▸ mem) with listed | inRest
    · obtain ⟨entry, entryMember, rfl⟩ := List.mem_map.mp listed
      exact ⟨(isNew entry entryMember).1, (isNew entry entryMember).2.1⟩
    · obtain ⟨notMain, absent⟩ := rest.isNew name inRest
      rw [known, if_neg (fun listed => apart name listed inRest)] at absent
      exact ⟨notMain, absent⟩
  · refine ⟨other, found, fun entry mem => ?_⟩
    have listed : entry.1 ∈ decl.names.map Prod.fst := mem_map_of_mem mem
    have same : after.get? entry.1 = iface.get? entry.1 := by
      rw [rest.others _ (apart _ listed), known, if_pos listed]
    obtain ⟨notMain, -, isOffered⟩ := isNew entry mem
    rw [same]
    refine ⟨isOffered, ?_⟩
    rw [offers, if_neg notMain]
  · rw [split, mem_append, not_or] at absent
    rw [rest.others name absent.2, known, if_neg absent.1]

theorem shape {prog : Program} (imports : Imports mods prog.imports [] imported) (name : String) :
    (imported.get? name).map RoutineInfo.shape = (prog.importOf? name).bind fun decl =>
        (Site.exported? name mods decl.source).map fun known => known.2.shape := by
  cases found : prog.importOf? name with
  | none =>
    rw [imports.others name (Program.importOf?_eq_none.mp found)]
    rfl
  | some decl =>
    obtain ⟨mem, listed⟩ := Program.importOf?_eq_some found
    obtain ⟨entry, entryMember, rfl⟩ := List.mem_map.mp listed
    obtain ⟨other, isModule, known⟩ := imports.sources decl mem
    rw [(known entry entryMember).2, Option.bind_some, Site.exported?_eq, isModule]
    rfl

end Imports

/-! ## Programs -/

namespace Site

variable {prog annotated : Program} {mods : List Analyzed} {imported : Interface}

theorem tells (imports : Imports mods prog.imports [] imported) {locals : Interface}
    (known : ∀ name, locals.get? name = (prog.definition? name).map Definition.info) :
    Check.Environment.shape? ⟨locals, imported⟩ = shape? ⟨prog, mods⟩ := by
  funext name
  have importedShape := imports.shape name
  simp only [Check.Environment.shape?, Check.Environment.lookup?, known, shape?, routine?]
  cases own : prog.definition? name with
  | some defn => rfl
  | none =>
    cases found : prog.importOf? name with
    | none =>
      rw [found] at importedShape
      rw [Option.map_eq_none_iff.mp importedShape]
      cases Builtin.ofName? name <;> rfl
    | some decl =>
      obtain ⟨mem, listed⟩ := Program.importOf?_eq_some found
      obtain ⟨entry, entryMember, rfl⟩ := List.mem_map.mp listed
      obtain ⟨other, isModule, isKnown⟩ := imports.sources decl mem
      obtain ⟨info, isInfo⟩ := Option.isSome_iff_exists.mp (isKnown entry entryMember).1
      rw [found, isInfo, Option.bind_some] at importedShape
      obtain ⟨routine, isRoutine, sameShape⟩ := Option.map_eq_some_iff.mp importedShape.symm
      simp [isInfo, isRoutine, sameShape]

/-- Filling the slots of a program does not change what names stand for in its modules, and
keeps the shapes of its own names. -/
theorem shape?_keeps (sameImports : annotated.imports = prog.imports)
    (keeps : Inference.KeepsDefinitions prog.definitions annotated.definitions) :
    shape? ⟨annotated, mods⟩ = shape? ⟨prog, mods⟩ := by
  funext name
  have related : Option.Rel Inference.KeepsDefinition (prog.definition? name)
    (annotated.definition? name) := keeps.find? name
  simp only [shape?, routine?, Program.importOf?, sameImports]
  generalize prog.definition? name = own, annotated.definition? name = other at related ⊢
  cases related with
  | none => rfl
  | some keepsOne => simp [keepsOne.shape]

theorem sound_of_checks (imports : Imports mods prog.imports [] imported)
    (checked : Check.checkDefinitions entry imported prog = .ok ())
    (named : ∀ defn ∈ prog.definitions, defn.Named) : Sound ⟨prog, mods⟩ := by
  obtain ⟨-, nodup, isNew, locals, known, definitionsChecked⟩ :=
    Check.checkDefinitions_eq_ok checked
  refine ⟨fun defn mem => ⟨?_, named defn mem⟩, nodup,
    fun defn mem => (isNew defn mem).1, fun decl mem => ?_,
    imports.nodup⟩
  · exact tells imports known ▸ Check.regular_of_checkDefinition (definitionsChecked defn mem)
  · obtain ⟨other, isModule, isKnown⟩ := imports.sources decl mem
    refine ⟨other, isModule, fun entry entryMember => ?_⟩
    obtain ⟨isSome, sameShape⟩ := isKnown entry entryMember
    rw [← Option.isSome_map (f := RoutineInfo.shape), sameShape, Option.isSome_map] at isSome
    exact isSome

theorem Sound.keeps (sound : Sound ⟨prog, mods⟩) (sameImports : annotated.imports = prog.imports)
    (keeps : Inference.KeepsDefinitions prog.definitions annotated.definitions) :
    Sound ⟨annotated, mods⟩ := by
  refine ⟨fun defn mem => ?_, ?_, fun defn mem => ?_, ?_, ?_⟩
  · obtain ⟨orig, originalMember, keepsOne⟩ := keeps.exists_original mem
    obtain ⟨regular, named⟩ := sound.regular orig originalMember
    rw [shape?_keeps sameImports keeps]
    exact ⟨keepsOne.regular _ regular, keepsOne.named named⟩
  · rw [keeps.names]
    exact sound.nodup
  · obtain ⟨orig, originalMember, keepsOne⟩ := keeps.exists_original mem
    rw [keepsOne.name]
    exact sound.free orig originalMember
  · rw [sameImports]
    exact sound.sources
  · rw [sameImports]
    exact sound.importsNodup

end Site

namespace Library

variable {prog : Program} {mods : List Analyzed} {imported : Interface}
variable {opts : Settings} {file : String} {before : Library}
variable {returns : Inference.Returns}

theorem get?_exports (nodup : (prog.definitions.map Definition.name).Nodup)
    (returns : Inference.Returns) (name : String) : (exports imported returns prog).get? name =
      if name = "Main" then imported.get? name
      else ((prog.definition? name).map fun defn => { defn.info with
          returns := (returns.get? defn.name).getD defn.info.returns }).or
        (imported.get? name) := by
  set own := prog.definitions.filter fun defn => defn.name != "Main" with isOwn
  set info : Definition → RoutineInfo := fun defn => { defn.info with
    returns := (returns.get? defn.name).getD defn.info.returns }
  have asTable : exports imported returns prog =
      Table.insertAll imported (own.map fun defn => (defn.name, info defn)) := by
    rw [Table.insertAll, foldl_map]
    rfl
  have differ :
      ((own.map fun defn => (defn.name, info defn)).map Prod.fst).Nodup := by
    rw [map_map]
    exact nodup.sublist (List.filter_sublist.map _)
  rw [asTable, Table.get?_insertAll, Table.get?_reverse differ, Table.get?_map, isOwn,
    find?_filter]
  split
  next isMain =>
    have absent : prog.definitions.find? (fun defn =>
        decide ((defn.name != "Main") = true ∧ (defn.name == name) = true)) = none := by
      simp [isMain]
    rw [absent]
    rfl
  next notMain =>
    have same : (fun defn : Definition =>
        decide ((defn.name != "Main") = true ∧ (defn.name == name) = true)) =
          fun defn => defn.name == name := by
      funext defn
      by_cases named : defn.name = name <;> simp [named, notMain]
    rw [same]
    rfl

/-- The types that have been found for the results of a definition do not change its shape. -/
theorem shape_of_counted {defns : List Definition}
    (counted : Inference.Counted (Inference.ResultCount defns) returns) (mem : defn ∈ defns) :
    RoutineInfo.shape { defn.info with
      returns := (returns.get? defn.name).getD defn.info.returns } =
        defn.shape := by
  cases kind : defn.kind with
  | procedure =>
    rw [Definition.shape_of_procedure kind]
    simp [RoutineInfo.shape, Definition.info, kind]
  | function =>
    cases known : returns.get? defn.name with
    | none => rfl
    | some types =>
      rw [Definition.shape_of_function kind, counted _ _ known defn mem rfl]
      simp [RoutineInfo.shape, Definition.info, kind]

theorem offers_exports (imports : Imports mods prog.imports [] imported)
    (nodup : (prog.definitions.map Definition.name).Nodup)
    (counted : Inference.Counted (Inference.ResultCount prog.definitions) returns) :
    Site.Offers ⟨prog, mods⟩ (exports imported returns prog) := by
  intro name
  rw [get?_exports nodup]
  split
  next isMain =>
    have notImported : name ∉ importedNames prog.imports := fun mem =>
      (imports.isNew name mem).1 isMain
    rw [imports.others name notImported]
    rfl
  next notMain =>
    rw [Site.routine?]
    cases own : prog.definition? name with
    | none =>
      have importedShape := imports.shape name
      rw [Option.map_none, Option.none_or, importedShape]
      cases prog.importOf? name <;> rfl
    | some defn =>
      have mem := mem_of_find?_eq_some own
      simp only [Option.map_some, Option.some_or, Option.some.injEq]
      exact shape_of_counted counted mem

/-! ## Interfaces of modules that are there -/

def lookup (modules : List Analyzed) (name : String) (span : Span) : Loading Interface :=
  match modules.find? fun known => known.name == name with
  | some known => pure known.interface
  | none => throw (.located (.moduleNotFound name) span)

theorem loads_lookup {span : Span} {iface : Interface} {after : Library} :
    Loads (lookup mods name span) before iface after ↔
      (∃ known, mods.find? (fun known => known.name == name) = some known ∧
        known.interface = iface) ∧ before = after := by
  unfold lookup
  split
  next known found => simp [found]
  next missing => simp [missing]

theorem imports_of_lookup {known : Interface} {after : Library}
    (loads : Loads (imports.foldlM (fun imported decl => do
      let iface ← lookup mods decl.source decl.span
      lift (Check.importNames iface imported decl)) known) before imported after)
    (sound : ModulesSound mods) : Imports mods imports known imported := by
  induction imports generalizing known before with
  | nil =>
    obtain ⟨rfl, -⟩ := loads_pure.mp loads
    exact .nil _ _
  | cons decl rest ih =>
    simp only [foldlM_cons, loads_bind, loads_lift, loads_lookup] at loads
    obtain ⟨_, _, ⟨_, _, ⟨⟨module, found, rfl⟩, rfl⟩, taken, rfl⟩, loadsRest⟩ := loads
    obtain ⟨site, isSite, offers⟩ := sound.offers found
    exact .cons isSite offers taken (ih loadsRest)

/-- What an analysis comes to has been checked, up to the types that are found afterwards. -/
theorem checked_of_conclude {annotated : Program} {iface : Interface}
    (concluded : conclude opts entry imported prog = .ok (annotated, iface)) :
    Check.checkDefinitions entry imported prog = .ok () ∧
      annotated.imports = prog.imports ∧
      Inference.KeepsDefinitions prog.definitions annotated.definitions := by
  obtain ⟨checked, returns, -, ⟨-, inferred⟩ | ⟨-, rfl, -⟩⟩ := conclude_eq_ok concluded
  · exact ⟨checked, Inference.bare_inferProgram inferred⟩
  · exact ⟨checked, rfl, .refl _⟩

/-- A program that passes all checks is sound, and so is what it offers. -/
theorem sound_of_lookup {annotated : Program} {iface : Interface} {after : Library}
    (loads : Loads (analyzeProgram opts entry (lookup mods) prog) before (annotated, iface) after)
    (named : ∀ defn ∈ prog.definitions, defn.Named) (sound : ModulesSound mods) :
    Site.Sound ⟨annotated, mods⟩ ∧ Site.Offers ⟨annotated, mods⟩ iface ∧
      (entry = true → ∃ main, annotated.definition? "Main" = some main ∧ main.isMain = true) := by
  obtain ⟨imported, loadsImports, concluded⟩ := loads_analyzeProgram.mp loads
  obtain ⟨checked, returns, rfl, typed⟩ := conclude_eq_ok concluded
  have imports := imports_of_lookup loadsImports sound
  have programSound := Site.sound_of_checks imports checked named
  obtain ⟨mainChecked, nodup, isNew, -⟩ := Check.checkDefinitions_eq_ok checked
  obtain ⟨sameImports, keeps, counted⟩ : annotated.imports = prog.imports ∧
      Inference.KeepsDefinitions prog.definitions annotated.definitions ∧
      Inference.Counted (Inference.ResultCount prog.definitions) returns := by
    rcases typed with ⟨-, inferred⟩ | ⟨-, rfl, rfl⟩
    · exact Inference.keeps_inferProgram
        (fun defn mem => (programSound.regular defn mem).1) nodup
        (fun defn mem => (isNew defn mem).2) inferred
    · exact ⟨rfl, .refl _, fun _ _ known => by cases known⟩
  refine ⟨programSound.keeps sameImports keeps, ?_, fun isEntry => ?_⟩
  · rw [← sameImports] at imports
    exact offers_exports imports (keeps.names ▸ nodup) (counted.keeps keeps)
  · obtain ⟨main, found, isMain, -⟩ := Check.checkMain_eq_ok (mainChecked isEntry)
    obtain ⟨newMain, newFound, keepsMain⟩ := keeps.definition? found
    exact ⟨newMain, newFound, keepsMain.isMain.trans isMain⟩

/-! ## Modules that are added -/

/-- What stays true of modules when one is added that is what the analysis of its text gives with
them. -/
def Hereditary (settings : Settings) (valid : List Analyzed → Prop) : Prop :=
  ∀ ⦃modules : List Analyzed⦄ ⦃known : Analyzed⦄ ⦃source : String⦄ ⦃program : Program⦄,
    ModulesSound (known :: modules) → valid modules →
    settings.catalogue.supplies.get? known.name = some (.text known.file source) →
    Program.ofText source = .ok program →
    (∀ library, Loads (analyzeProgram settings false (lookup modules) program) library
      (known.program, known.interface) library) → valid (known :: modules)

/-- The library has more modules than before, but none of those at work. -/
structure Extends (atWork : List String) (valid : List Analyzed → Prop) (before after : Library) :
    Prop where
  suffix : before.analyzed <:+ after.analyzed
  compiled : after.compiled = before.compiled
  fresh : ∀ name ∈ atWork, (∀ known ∈ before.analyzed, known.name ≠ name) →
    ∀ known ∈ after.analyzed, known.name ≠ name
  sound : ModulesSound after.analyzed
  valid : valid after.analyzed

section Extends

variable {atWork : List String} {valid : List Analyzed → Prop} {lib after : Library}
  {resolve : String → Span → Loading Interface}

theorem Extends.refl (sound : ModulesSound lib.analyzed) (isValid : valid lib.analyzed) :
    Extends atWork valid lib lib :=
  ⟨suffix_rfl, rfl, fun _ _ => id, sound, isValid⟩

theorem Extends.trans {between : Library} (first : Extends atWork valid before between)
    (second : Extends atWork valid between after) : Extends atWork valid before after where
  suffix := first.suffix.trans second.suffix
  compiled := second.compiled.trans first.compiled
  fresh name mem isNew := second.fresh name mem (first.fresh name mem isNew)
  sound := second.sound
  valid := second.valid

theorem Extends.finish (grown : Extends (atWork ++ [name]) valid before after) :
    Extends atWork valid before after :=
  { grown with fresh := fun other working => grown.fresh other (mem_append_left _ working) }

/-- Looking for interfaces adds modules to a library, even when it fails.  An interface that is
found is that of a module of the library. -/
structure Resolves (atWork : List String) (valid : List Analyzed → Prop)
    (resolve : String → Span → Loading Interface) : Prop where
  preserves : ∀ (start : Library) (source : String) (span : Span),
    Preserves (Extends atWork valid start) (resolve source span)
  offers : ∀ ⦃source : String⦄ ⦃span : Span⦄ ⦃before after : Library⦄ ⦃interface : Interface⦄,
    Loads (resolve source span) before interface after →
      ∃ known, after.analyzed? source = some known ∧ known.interface = interface

theorem Resolves.loads (resolves : Resolves atWork valid resolve) {span : Span}
    {iface : Interface} (loads : Loads (resolve src span) before iface after)
    (sound : ModulesSound before.analyzed) (isValid : valid before.analyzed) :
    Extends atWork valid before after ∧
      ∃ known, after.analyzed? src = some known ∧ known.interface = iface :=
  ⟨(resolves.preserves before src span).of_loads loads (.refl sound isValid),
    resolves.offers loads⟩

theorem lookup_of_loads (resolves : Resolves atWork valid resolve) {analyzed : Program × Interface}
    (loads : Loads (analyzeProgram opts entry resolve prog) before analyzed after)
    (sound : ModulesSound before.analyzed) (isValid : valid before.analyzed) :
    Extends atWork valid before after ∧ ∀ lib,
      Loads (analyzeProgram opts entry (lookup after.analyzed) prog) lib analyzed lib := by
  obtain ⟨imported, imports, concluded⟩ := loads_analyzeProgram.mp loads
  suffices found : Extends atWork valid before after ∧
      ∀ lib, Loads (importAll (lookup after.analyzed) prog) lib imported lib from
    ⟨found.1, fun lib => loads_analyzeProgram.mpr ⟨imported, found.2 lib, concluded⟩⟩
  clear concluded loads
  unfold importAll at imports ⊢
  generalize prog.imports = all, ([] : Interface) = known at imports ⊢
  induction all generalizing known before with
  | nil =>
    obtain ⟨rfl, rfl⟩ := loads_pure.mp imports
    exact ⟨.refl sound isValid, fun _ => loads_pure.mpr ⟨rfl, rfl⟩⟩
  | cons decl rest ih =>
    simp only [foldlM_cons, loads_bind, loads_lift] at imports
    obtain ⟨middle, between, ⟨_, _, resolved, taken, rfl⟩, importsRest⟩ := imports
    obtain ⟨grows, module, found, rfl⟩ := resolves.loads resolved sound isValid
    obtain ⟨growsRest, foundRest⟩ := ih grows.sound grows.valid middle importsRest
    refine ⟨grows.trans growsRest, fun lib => ?_⟩
    have stillFound := growsRest.sound.find?_of_suffix growsRest.suffix found
    simp only [foldlM_cons, loads_bind, loads_lift, loads_lookup]
    exact ⟨middle, lib, ⟨_, lib, ⟨⟨module, stillFound, rfl⟩, rfl⟩, taken, rfl⟩, foundRest lib⟩

theorem resolves_interface (hereditary : Hereditary opts valid) (atWork : List String) :
    Resolves atWork valid (interface opts atWork) := by
  constructor
  case preserves =>
    intro start name span
    refine Preserves.bind (preserves_of_leaves fun before grown => ?_) fun _ => preserves_pure
    have sound := grown.sound
    have isValid := grown.valid
    -- with one more module at work, fewer are left for the calls inside
    have inner (text : String × String) (notWorking : name ∉ atWork)
        (isText : opts.catalogue.textOf name span = .ok text) :
        Resolves (atWork ++ [name]) valid (interface opts (atWork ++ [name])) :=
      have fewer := idleCount_lt_of_textOf isText notWorking
      resolves_interface hereditary (atWork ++ [name])
    refine leaves_analyzeModule grown (fun text prog isNew notWorking isText => grown.trans ?_)
      fun known after loads => grown.trans ?_
    · exact (preserves_analyzeProgram ((inner text notWorking isText).preserves before) prog
        before (.refl sound isValid)).2.finish
    · rcases loads_analyzeModule.mp loads with ⟨-, rfl⟩ | ⟨isNew, notWorking, text, isText, loads⟩
      · exact .refl sound isValid
      · obtain ⟨prog, read, annotated, iface, between, analyzed, rfl, rfl⟩ :=
          loads_readModule.mp loads
        obtain ⟨grows, lookups⟩ :=
          lookup_of_loads (inner text notWorking isText) analyzed sound isValid
        obtain ⟨programSound, offers, -⟩ :=
          sound_of_lookup (lookups between) (Program.ofText_named read) grows.sound
        have absent : ∀ known ∈ between.analyzed, known.name ≠ name :=
          grows.fresh name (by simp) (by simpa [analyzed?] using isNew)
        have added : ModulesSound (⟨name, text.1, annotated, iface⟩ :: between.analyzed) :=
          ⟨absent, programSound, offers, grows.sound⟩
        refine ⟨grows.suffix.trans (suffix_cons _ _), grows.compiled,
          fun other working otherAbsent =>
            List.forall_mem_cons.mpr ⟨?_, grows.finish.fresh other working otherAbsent⟩, added,
          hereditary added grows.valid (Catalogue.textOf_eq_ok.mp isText) read lookups⟩
        rintro rfl
        exact notWorking working
  case offers =>
    intro name span before after offered loads
    simp only [interface, loads_bind, loads_pure] at loads
    obtain ⟨known, _, loads, rfl, rfl⟩ := loads
    exact ⟨known, analyzed?_of_loads loads, rfl⟩
termination_by idleCount opts.catalogue.supplies atWork

end Extends

/-! ## First programs -/

/-- What the text of a first program is analyzed as: with the import of what is missing, if there
is a prelude for it. -/
inductive Completed (settings : Settings) (file : String) (text : Program) (before : Library) :
    Program → Library → Prop
  | plain
      (noPrelude : ¬ (Path.moduleName file != preludeName &&
        settings.catalogue.offers preludeName) = true) :
      Completed settings file text before text before
  | enriched {prelude : Interface} {between : Library}
      (hasPrelude : (Path.moduleName file != preludeName &&
        settings.catalogue.offers preludeName) = true)
      (resolved : Loads (interface settings [Path.moduleName file] preludeName .nowhere) before
        prelude between) :
      Completed settings file text before (withPrelude prelude text) between

theorem Completed.definitions {text extended : Program} {between : Library}
    (completed : Completed opts file text before extended between) :
    extended.definitions = text.definitions := by
  cases completed <;> rfl

theorem loads_analyzeEntry_iff {after : Library} :
    Loads (analyzeEntry opts file src) before prog after ↔
      ∃ text extended iface between, Program.ofText src = .ok text ∧
        Completed opts file text before extended between ∧
        Loads (analyzeProgram opts true (Library.interface opts [Path.moduleName file])
          extended) between (prog, iface) after := by
  simp only [analyzeEntry, loads_rethrow, loads_bind, loads_lift]
  constructor
  · rintro ⟨text, _, ⟨read, rfl⟩, loads⟩
    split at loads
    next hasPrelude =>
      simp only [loads_bind, loads_pure] at loads
      obtain ⟨prelude, between, resolved, _, _, ⟨rfl, rfl⟩, ⟨_, iface⟩, _, analyzed, rfl,
        rfl⟩ := loads
      exact ⟨text, _, iface, between, read, .enriched hasPrelude resolved, analyzed⟩
    next noPrelude =>
      simp only [loads_bind, loads_pure] at loads
      obtain ⟨_, _, ⟨rfl, rfl⟩, ⟨_, iface⟩, _, analyzed, rfl, rfl⟩ := loads
      exact ⟨_, _, iface, before, read, .plain noPrelude, analyzed⟩
  · rintro ⟨text, _, iface, _, read, completed, analyzed⟩
    refine ⟨text, before, ⟨read, rfl⟩, ?_⟩
    cases completed with
    | plain noPrelude =>
      simp only [if_neg noPrelude, loads_bind, loads_pure]
      exact ⟨text, before, ⟨rfl, rfl⟩, _, after, analyzed, rfl, rfl⟩
    | enriched hasPrelude resolved =>
      simp only [if_pos hasPrelude, loads_bind, loads_pure]
      exact ⟨_, _, resolved, _, _, ⟨rfl, rfl⟩, _, after, analyzed, rfl, rfl⟩

theorem lookup_of_analyzeEntry {valid : List Analyzed → Prop} {after : Library}
    (hereditary : Hereditary opts valid)
    (loads : Loads (analyzeEntry opts file src) before prog after)
    (sound : ModulesSound before.analyzed) (isValid : valid before.analyzed) :
    Extends [Path.moduleName file] valid before after ∧ ∃ text extended iface,
      Program.ofText src = .ok text ∧
      (∃ between, Completed opts file text before extended between) ∧
      ∀ lib, Loads (analyzeProgram opts true (lookup after.analyzed) extended) lib
        (prog, iface) lib := by
  have resolves := resolves_interface hereditary [Path.moduleName file]
  obtain ⟨text, extended, iface, between, read, completed, analyzed⟩ :=
    loads_analyzeEntry_iff.mp loads
  have grows : Extends [Path.moduleName file] valid before between := by
    cases completed with
    | plain _ => exact .refl sound isValid
    | enriched _ resolved => exact (resolves.loads resolved sound isValid).1
  obtain ⟨growsAgain, lookups⟩ := lookup_of_loads resolves analyzed grows.sound grows.valid
  exact ⟨grows.trans growsAgain, text, extended, iface, read, ⟨between, completed⟩, lookups⟩

theorem hereditary_true : Hereditary opts fun _ => True :=
  fun _ _ _ _ _ _ _ _ _ => trivial

theorem sound_of_analyzeEntry {after : Library}
    (loads : Loads (analyzeEntry opts file src) before prog after)
    (sound : ModulesSound before.analyzed) :
    after.compiled = before.compiled ∧ ModulesSound after.analyzed ∧
      Site.Sound ⟨prog, after.analyzed⟩ ∧
      ∃ main, prog.definition? "Main" = some main ∧ main.isMain = true := by
  obtain ⟨grows, text, extended, iface, read, ⟨_, completed⟩, lookups⟩ :=
    lookup_of_analyzeEntry hereditary_true loads sound trivial
  obtain ⟨programSound, -, hasMain⟩ := sound_of_lookup (lookups empty)
    (completed.definitions ▸ Program.ofText_named read) grows.sound
  exact ⟨grows.compiled, grows.sound, programSound, hasMain rfl⟩

end Library

/-- A program that is accepted has a main procedure, and is sound like all the modules behind
it. -/
theorem Site.sound_of_ofEntry? {opts : Library.Settings} {file : String}
    (accepted : ofEntry? opts file src = some site) :
    Library.Loads (Library.analyzeEntry opts file src) Library.empty site.program
        ⟨site.modules, []⟩ ∧
      site.Sound ∧ ModulesSound site.modules ∧
      ∃ main, site.program.definition? "Main" = some main ∧ main.isMain = true := by
  unfold ofEntry? at accepted
  split at accepted
  next prog lib outcome =>
    cases accepted
    have loads : Library.Loads (Library.analyzeEntry opts file src) Library.empty prog
      lib := outcome
    obtain ⟨notCompiled, modsSound, programSound, hasMain⟩ :=
      Library.sound_of_analyzeEntry loads trivial
    obtain ⟨mods, compiled⟩ := lib
    cases notCompiled
    exact ⟨loads, programSound, modsSound, hasMain⟩
  next => cases accepted

end StoneBoard
