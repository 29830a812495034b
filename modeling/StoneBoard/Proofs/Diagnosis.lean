import StoneBoard.Proofs.Analysis

/-!
# Faults of programs

Whatever is wrong with a program is found at a place in its text.  The same holds of a module
that a program imports: its importer is told of the fault at the place of the import.
-/

namespace StoneBoard

open List

variable {places : Span → Prop} {prog : Program} {src : String}
variable {body : List Stmt} {stmt : Stmt} {defn : Definition} {value : Expr} {span : Span}

namespace FaultsIn

variable {α β : Type} {places : Span → Prop}

theorem foldlM {step : β → α → Except Error β} {items : List α} (start : β)
    (faults : ∀ item ∈ items, ∀ state, FaultsIn places (step state item)) :
    FaultsIn places (items.foldlM step start) := by
  induction items generalizing start with
  | nil => exact .ok start
  | cons first rest ih =>
    rw [foldlM_cons]
    apply (faults first mem_cons_self start).bind
    intro state _
    exact ih state fun item mem => faults item (mem_cons_of_mem first mem)

theorem forM {action : α → Except Error PUnit} {items : List α}
    (faults : ∀ item ∈ items, FaultsIn places (action item)) :
    FaultsIn places (items.forM action) := by
  induction items with
  | nil => exact .ok _
  | cons first rest ih =>
    apply (faults first mem_cons_self).bind
    intro _ _
    exact ih fun item mem => faults item (mem_cons_of_mem first mem)

theorem on {outcome : Except Error α} (faults : FaultsIn (Span.On src) outcome) :
    FaultsIn (Span.Within src) outcome :=
  fun error fails => (faults error fails).mono fun _ => Span.On.toWithin

end FaultsIn

/-! ## Checks -/

namespace Check

variable {places : Span → Prop}
variable {span : Span} {defn : Definition}

theorem importNames_faults (iface imported : Interface) {decl : Import}
    (asRead : decl.AsRead places) : FaultsIn places (importNames iface imported decl) := by
  apply FaultsIn.foldlM
  rintro ⟨name, span⟩ mem imported
  have within : places span := asRead.names _ mem
  unfold importName
  apply (require_faults _ _ within).bind
  intro _ _
  apply (require_faults _ _ within).bind
  intro _ _
  split
  · exact .ok _
  · exact .error (.located rfl within)

theorem declare_faults (imported locals : Interface) (asRead : defn.AsRead places) :
    FaultsIn places (declare imported locals defn) := by
  unfold declare
  apply (require_faults _ _ asRead.within).bind
  intro _ _
  apply (require_faults _ _ asRead.within).bind
  intro _ _
  exact .ok _

theorem checkMain_faults (asRead : prog.AsRead src) :
    FaultsIn (Span.Within src) (checkMain prog) := by
  unfold checkMain
  split
  · exact .error (.located rfl Span.within_nowhere)
  next main found =>
    have within := (asRead.definitions main (mem_of_find?_eq_some found)).within.toWithin
    apply (require_faults _ _ within).bind
    intro _ _
    apply (require_faults _ _ within).bind
    intro _ _
    exact require_faults _ _ within

theorem checkDefinitions_faults (entry : Bool) (imported : Interface) (asRead : prog.AsRead src) :
    FaultsIn (Span.Within src) (checkDefinitions entry imported prog) := by
  have declares := FaultsIn.on <| .foldlM [] fun defn mem locals =>
    declare_faults imported locals (asRead.definitions defn mem)
  have checks (locals : Interface) := FaultsIn.on <| .forM fun defn mem =>
    (checkDefinition_tracks (.refl ⟨locals, imported⟩) defn).faults _
      (asRead.definitions defn mem)
  unfold checkDefinitions
  cases entry with
  | false =>
    apply declares.bind
    intro locals _
    exact checks locals
  | true =>
    apply (require_faults _ _ Span.within_nowhere).bind
    intro _ _
    apply declares.bind
    intro locals _
    apply (checkMain_faults asRead).bind
    intro _ _
    exact checks locals

end Check

/-! ## Types

Rounds of inference begin with what the rounds before them have left, so that the slots may
be filled already; but the bare form is always that of the text. -/

namespace Inference

variable {places : Span → Prop} {returns : Returns} {locals : Variables}
variable {span : Span}
variable {defns : List Definition}

theorem inferDefinition_faults (asRead : defn.bare.AsRead places) :
    FaultsIn places (inferDefinition returns defn) :=
  (inferDefinition_tracks (.refl returns) rfl).faults places asRead

theorem inferRound_faults (asRead : ∀ defn ∈ defns, defn.bare.AsRead places) :
    FaultsIn places (inferRound returns defns) := by
  induction defns generalizing returns with
  | nil => exact .ok _
  | cons first rest ih =>
    rw [inferRound]
    apply (inferDefinition_faults (asRead first mem_cons_self)).bind
    intro _ _
    apply (ih fun defn mem => asRead defn (mem_cons_of_mem first mem)).bind
    intro _ _
    exact .ok _

theorem inferRounds_faults (asRead : ∀ defn ∈ defns, defn.bare.AsRead places)
    (rounds : Nat) : FaultsIn places (inferRounds returns defns rounds) := by
  induction rounds generalizing returns defns with
  | zero => exact .ok _
  | succ rounds ih =>
    rw [inferRounds]
    apply (inferRound_faults asRead).bind
    rintro ⟨annotated, returned, changed⟩ inferred
    dsimp only
    split
    · apply ih
      intro defn mem
      obtain ⟨orig, originalMember, keeps⟩ := (keeps_inferRound inferred).exists_original mem
      rw [keeps]
      exact asRead orig originalMember
    · exact .ok _

theorem inferProgram_faults (imported : Interface) (asRead : prog.AsRead src) :
    FaultsIn (Span.On src) (inferProgram imported prog) := by
  unfold inferProgram
  apply (inferRounds_faults (fun defn mem => ?_) _).bind
  · intro _ _
    exact .ok _
  · have definitionRead := asRead.definitions defn mem
    rw [definitionRead.bare_eq]
    exact definitionRead

end Inference

/-! ## Modules -/

theorem Catalogue.absence_foundIn (catalogue : Catalogue) (name : String)
    (within : places span) : (catalogue.absence name span).FoundIn places := by
  unfold absence
  split
  · exact .located rfl within
  · split <;> exact .located rfl within

theorem Catalogue.textOf_faults (catalogue : Catalogue) (name : String)
    (within : places span) : FaultsIn places (catalogue.textOf name span) := by
  unfold textOf
  rcases catalogue.supplies.get? name with _ | ⟨_ | _ | _⟩
  · exact .error (catalogue.absence_foundIn name within)
  · exact .ok _
  · exact .error (.located rfl within)
  · exact .error (.located rfl within)

namespace Library

variable {resolve : String → Span → Loading Interface} {src : String} {prog : Program}

abbrev FailsIn {α : Type} (source : String) (action : Loading α) : Prop :=
  Ensures (fun _ => True) (fun error => error.FoundIn (Span.Within source)) (fun _ => True) action

theorem conclude_faults (opts : Settings) (entry : Bool) (imported : Interface)
    (asRead : prog.AsRead src) :
    FaultsIn (Span.Within src) (conclude opts entry imported prog) := by
  apply (Check.checkDefinitions_faults entry imported asRead).bind
  intro _ _
  split
  · apply (Inference.inferProgram_faults imported asRead).on.bind
    intro _ _
    exact .ok _
  · exact .ok _

theorem analyzeProgram_fails (opts : Settings) (entry : Bool)
    (resolves : ∀ name span, span.Within src → FailsIn src (resolve name span))
    (asRead : prog.AsRead src) : FailsIn src (analyzeProgram opts entry resolve prog) :=
  .analyzeProgram
    (fun decl mem => resolves _ _ (asRead.imports decl mem).within)
    (fun decl mem iface imported =>
      Check.importNames_faults iface imported (asRead.imports decl mem))
    (fun imported => conclude_faults opts entry imported asRead) fun _ _ _ => trivial

mutual

theorem analyzeModule_fails (opts : Settings) (atWork : List String) (name : String)
    {importer : String} {span : Span} (within : span.Within importer) :
    FailsIn importer (analyzeModule opts atWork name span) := by
  refine .analyzeModule (fun _ => .located rfl within)
    (opts.catalogue.textOf_faults name within) (fun text isText notWorking => ?_)
    fun _ _ _ _ => id
  have fewer := idleCount_lt_of_textOf isText notWorking
  exact (analyzeText_fails opts (atWork ++ [name]) text.2).weaken
    (fun error found => (found.inFile text.1).reraise name within) fun _ => id
termination_by (idleCount opts.catalogue.supplies atWork, 0)

theorem analyzeText_fails (opts : Settings) (atWork : List String) (src : String) :
    FailsIn src (lift (Program.ofText src) >>= analyzeProgram opts false (interface opts atWork)) := by
  obtain ⟨faults, asRead⟩ := Program.ofText_read src
  refine .bind (.lift faults asRead) fun prog asRead => ?_
  refine analyzeProgram_fails opts false (fun inner innerSpan innerWithin => ?_) asRead
  exact (analyzeModule_fails opts atWork inner innerWithin).bind fun _ _ => .pure trivial
termination_by (idleCount opts.catalogue.supplies atWork, 1)

end

theorem isIdentifier_preludeName : IsIdentifier preludeName :=
  ⟨'P', "relude".toList, by decide, by decide, List.all_eq_true.mp (by decide)⟩

theorem withPrelude_asRead (prelude : Interface) (asRead : prog.AsRead src) :
    (withPrelude prelude prog).AsRead src := by
  have declared : ∀ decl ∈ (withPrelude prelude prog).imports,
      decl.AsRead (Span.Within src) := by
    intro decl mem
    rcases List.mem_cons.mp mem with rfl | later
    · refine ⟨isIdentifier_preludeName, fun entry listed => ?_, Span.within_nowhere⟩
      obtain ⟨_, -, rfl⟩ := List.mem_map.mp listed
      exact Span.within_nowhere
    · exact asRead.imports decl later
  exact ⟨declared, asRead.definitions⟩

theorem analyzeEntry_fails (opts : Settings) (file src : String) :
    FailsIn src (analyzeEntry opts file src) := by
  have resolves (name : String) (span : Span) (within : span.Within src) :
      FailsIn src (interface opts [Path.moduleName file] name span) :=
    (analyzeModule_fails opts _ name within).bind fun _ _ => .pure trivial
  obtain ⟨faults, asRead⟩ := Program.ofText_read src
  unfold analyzeEntry
  refine .rethrow (.bind (.lift faults asRead) fun prog asRead => ?_)
    fun error found => (found.inFile file).withSource src
  simp only [pure_bind]
  split
  · refine (resolves _ _ Span.within_nowhere).bind fun prelude _ => ?_
    exact (analyzeProgram_fails opts true resolves (withPrelude_asRead prelude asRead)).bind
      fun _ _ => .pure trivial
  · exact (analyzeProgram_fails opts true resolves asRead).bind fun _ _ => .pure trivial

end Library

end StoneBoard
