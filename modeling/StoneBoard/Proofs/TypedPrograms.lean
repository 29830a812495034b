import StoneBoard.Proofs.Frames
import StoneBoard.Proofs.InferredTypes
import StoneBoard.Proofs.Provenance

/-!
# Typed programs with their types

If types can be given to an accepted program and to the modules behind it before their types
are inferred, the slots that inference fills are right in all of them.  From module to module,
interfaces tell nothing about results that their types do not tell.
-/

namespace StoneBoard

open List

variable {src : String} {here : Site}

namespace Site

variable {name : String}

def TypedBare (typing : Typing) (site : Site) : Prop :=
  Definition.AllTyped (site.Calls typing) (typing site) site.program.bare.definitions

/-- Types can be given to the routines of a program and of the modules behind it, one of them
to the main procedure. -/
def WellTyped (site : Site) : Prop :=
  ∃ typing : Typing, (∃ types, typing site "Main" types) ∧
    ∀ here, site.Holds here → here.TypedBare typing

/-- What an interface tells about results is below the types of all calls. -/
def Reports (typing : Typing) (site : Site) (interface : Interface) : Prop :=
  ∀ name info, interface.get? name = some info → ∀ given found,
    site.Calls typing name given found → Ty.BelowAll info.returns found

variable {typing : Typing} {site : Site}

theorem below_of_calls (sound : site.Sound) (mods : ModulesSound site.modules) {wanted ty : Ty}
    {span : Span} (called : site.Calls typing name given [wanted])
    (below : List.Forall₂ Ty.Below found given)
    (inferred : Inference.builtinType name found span = .ok ty) : ty.Below wanted := by
  generalize isResult : [wanted] = results at called
  cases called with
  | routine isRoutine _ _ =>
    have noBuiltin : Builtin.ofName? name = none := by
      cases isBuiltin : Builtin.ofName? name with
      | none => rfl
      | some builtin =>
        have reserved := sound.reserved mods (by rw [Builtin.isDefined, isBuiltin]; rfl)
        rw [isRoutine] at reserved
        cases reserved
    rw [Inference.builtinType, noBuiltin] at inferred
    cases inferred
    exact Ty.unknown_below wanted
  | operation _ isBuiltin gives =>
    cases isResult
    obtain ⟨-, rfl⟩ := Builtin.ofName?_eq_some isBuiltin
    exact Inference.below_of_builtinType gives below inferred
  | action => cases isResult

theorem owns_of_mem (defined : name ∈ site.program.definitions.map Definition.name) :
    Inference.Owns (site.Calls typing) (typing site) name := by
  obtain ⟨defn, isOwn⟩ : ∃ defn, site.program.definition? name = some defn := by
    obtain ⟨defn, mem, rfl⟩ := List.mem_map.mp defined
    rw [← Option.isSome_iff_exists, Program.definition?, find?_isSome]
    exact ⟨defn, mem, by simp⟩
  have isRoutine : site.routine? name = some (site, defn) := by rw [routine?, isOwn]
  have named : defn.name = name := by simpa using find?_some isOwn
  intro given found called
  cases called with
  | routine found typed _ =>
    cases isRoutine.symm.trans found
    rw [named] at typed
    unfold Definition.resultTypes
    split
    · exact .inr ⟨_, typed, rfl⟩
    · exact .inl rfl
  | operation free | action free => cases isRoutine.symm.trans free

end Site

open Library

variable {given found : List Ty}

def ModulesReport (typing : Typing) : List Analyzed → Prop
  | [] => True
  | known :: older =>
      Site.Typed typing ⟨known.program, older⟩ ∧
        Site.Reports typing ⟨known.program, older⟩ known.interface ∧ ModulesReport typing older

namespace ModulesReport

variable {typing : Typing} {mods : List Analyzed}
variable {prog : Program} {imported : Interface}

theorem typed (report : ModulesReport typing mods)
    (found : Site.module? mods src = some here) : here.Typed typing := by
  induction mods with
  | nil => cases found
  | cons known older ih =>
    obtain ⟨hereTyped, -, there⟩ := report
    rw [Site.module?] at found
    split at found
    · cases found
      exact hereTyped
    · exact ih there found

theorem reports (report : ModulesReport typing mods) {known : Analyzed}
    (found : mods.find? (fun known => known.name == src) = some known) :
    ∃ here, Site.module? mods src = some here ∧ here.Reports typing known.interface := by
  induction mods with
  | nil => cases found
  | cons first older ih =>
    obtain ⟨-, reports, there⟩ := report
    rw [Site.module?]
    by_cases same : first.name = src
    · rw [find?_cons_of_pos (by simpa using same)] at found
      cases found
      rw [if_pos same]
      exact ⟨_, rfl, reports⟩
    · rw [find?_cons_of_neg (by simpa using same)] at found
      rw [if_neg same]
      exact ih there found

theorem told (report : ModulesReport typing mods) (sound : Site.Sound ⟨prog, mods⟩)
    (imports : ImportedFrom mods prog.imports imported)
    (isNew : ∀ defn ∈ prog.definitions, imported.get? defn.name = none)
    {entry : String × RoutineInfo} (mem : entry ∈ imported)
    (called : Site.Calls typing ⟨prog, mods⟩ entry.1 given found) :
    Ty.BelowAll entry.2.returns found := by
  obtain ⟨decl, declarationMember, listed, known, isKnown, told⟩ := imports entry mem
  obtain ⟨here, isModule, reports⟩ := report.reports isKnown
  have notOwn : prog.definition? entry.1 = none := by
    cases isOwn : prog.definition? entry.1 with
    | none => rfl
    | some defn =>
      have absent := isNew defn (mem_of_find?_eq_some isOwn)
      rw [show defn.name = entry.1 by simpa using find?_some isOwn] at absent
      exact absurd (mem_map_of_mem mem) (Table.get?_eq_none_iff.mp absent)
  have same : here.routine? entry.1 = Site.routine? ⟨prog, mods⟩ entry.1 := by
    rw [Site.routine?.eq_def ⟨prog, mods⟩, notOwn]
    dsimp only
    rw [Program.importOf?_of_mem sound.importsNodup declarationMember listed]
    dsimp only
    rw [Site.exported?_eq, isModule, Option.bind_some]
  exact reports entry.1 entry.2 told given found (called.congr same)

/-- A program that has been inferred keeps to its types with its slots filled, and tells
nothing wrong. -/
theorem of_inferred (report : ModulesReport typing mods) {orig : Program}
    {iface : Interface} {returns : Inference.Returns}
    (inferred : Inferred mods prog iface orig imported returns)
    (sound : Site.Sound ⟨prog, mods⟩) (modsSound : ModulesSound mods)
    (bare : Site.TypedBare typing ⟨prog, mods⟩) :
    Site.Typed typing ⟨prog, mods⟩ ∧ Site.Reports typing ⟨prog, mods⟩ iface := by
  obtain ⟨-, keeps⟩ := Inference.bare_inferProgram inferred.inferred
  have told : ∀ entry ∈ imported, ∀ given found,
      Site.Calls typing ⟨prog, mods⟩ entry.1 given found →
      Ty.BelowAll entry.2.returns found := fun entry mem given found called =>
    report.told sound inferred.imports inferred.isNew mem called
  have informed : Inference.Informed (Inference.initialReturns imported orig.definitions)
      (Site.Calls typing ⟨prog, mods⟩) :=
    Inference.informed_initialReturns told fun called below isBuiltin =>
      Site.below_of_calls sound modsSound called below isBuiltin
  have owns : ∀ name ∈ orig.definitions.map Definition.name,
      Inference.Owns (Site.Calls typing ⟨prog, mods⟩) (typing ⟨prog, mods⟩) name := by
    rw [← keeps.names]
    exact fun name defined => Site.owns_of_mem defined
  have sameBare : prog.bare.definitions = orig.definitions := by
    rw [← inferred.bare]
    exact keeps.bare_eq
  rw [Site.TypedBare, sameBare] at bare
  obtain ⟨typed, below⟩ := Inference.typed_inferProgram informed owns bare inferred.inferred
  refine ⟨typed, fun name info isInfo given found called => ?_⟩
  rw [inferred.exported, get?_exports sound.nodup] at isInfo
  split at isInfo
  · exact told _ (Table.mem_of_get? isInfo) given found called
  · cases isOwn : prog.definition? name with
    | none =>
      rw [isOwn] at isInfo
      exact told _ (Table.mem_of_get? isInfo) given found called
    | some defn =>
      rw [isOwn] at isInfo
      cases isInfo
      have named : defn.name = name := by simpa using find?_some isOwn
      dsimp only
      rw [named]
      cases isKnown : returns.get? name with
      | none =>
        simp only [Option.getD_none, Definition.info]
        split
        · exact Ty.belowAll_unknown _ found
        · exact Ty.belowAll_nil found
      | some types => exact below name types given found isKnown called

theorem of_modulesInferred (inferred : ModulesInferred mods) (sound : ModulesSound mods)
    (bare : ∀ src here, Site.module? mods src = some here → here.TypedBare typing) :
    ModulesReport typing mods := by
  induction mods with
  | nil => trivial
  | cons known older ih =>
    obtain ⟨⟨orig, imported, returns, here⟩, there⟩ := inferred
    have olderReport := ih there sound.2.2.2 fun src other found =>
      bare src other (sound.module?_of_suffix (suffix_cons known older) found)
    have bareHere := bare known.name ⟨known.program, older⟩ (by simp [Site.module?])
    obtain ⟨typed, reports⟩ := olderReport.of_inferred here sound.2.1 sound.2.2.2 bareHere
    exact ⟨typed, reports, olderReport⟩

end ModulesReport

/-- An accepted program that is typed before its types are inferred is typed afterwards as
well, and so are the modules behind it. -/
theorem Site.typed_of_ofEntry? {catalogue : Catalogue} {file : String} {site : Site}
    {typing : Typing} (accepted : ofEntry? ⟨catalogue, true⟩ file src = some site)
    (bare : ∀ here, site.Holds here → here.TypedBare typing) (holds : site.Holds here) :
    here.Typed typing := by
  obtain ⟨-, sound, modsSound, -⟩ := sound_of_ofEntry? accepted
  obtain ⟨modulesInferred, iface, orig, imported, returns, inferred⟩ :=
    inferred_of_ofEntry? accepted
  have report : ModulesReport typing site.modules :=
    .of_modulesInferred modulesInferred modsSound fun src other found =>
      bare other (.inr ⟨src, found⟩)
  rcases holds with rfl | ⟨src, found⟩
  · exact (report.of_inferred inferred sound modsSound (bare here (.inl rfl))).1
  · exact report.typed found

end StoneBoard
