import StoneBoard.Library
import StoneBoard.Proofs.Success

/-!
# What is done with a library

Whatever is done with a library succeeds with a value or fails with an error, and leaves a library
behind in both cases.  The steps that all loading is made of come with rules for what succeeds,
and with rules for what then holds of the error, of the value and of the library.
-/

namespace StoneBoard

variable {catalogue : Catalogue}

def Catalogue.textOf (catalogue : Catalogue) (name : String) (span : Span) :
    Except Error (String × String) :=
  match catalogue.supplies.get? name with
  | none => .error (catalogue.absence name span)
  | some supply => supply.read span

theorem Catalogue.textOf_eq_ok {name file src : String} {span : Span} :
    catalogue.textOf name span = .ok (file, src) ↔
      catalogue.supplies.get? name = some (.text file src) := by
  unfold Catalogue.textOf
  rcases catalogue.supplies.get? name with _ | ⟨_ | _ | _⟩ <;> simp [Supply.read]

namespace Library

variable {α β : Type} {before after lib : Library} {opts : Settings} {entry : Bool}
  {prog : Program} {resolve : String → Span → Loading Interface} {atWork : List String}
  {name file src : String} {span : Span} {known : Analyzed} {text : String × String}
  {change : Error → Error}
variable {value : α} {error : Error} {outcome : Except Error α} {next : β → Loading α}
  {action : Loading α} {valid : Library → Prop}

/-! ## Outcomes -/

def result (action : Loading α) (library : Library) : Except Error α × Library :=
  Id.run (action.run.run library)

@[simp]
theorem result_pure : result (pure value) lib = (.ok value, lib) := rfl

@[simp]
theorem result_throw : result (throw error : Loading α) lib = (.error error, lib) := rfl

@[simp]
theorem result_lift : result (lift outcome) lib = (outcome, lib) := by
  cases outcome <;> rfl

@[simp]
theorem result_bind {action : Loading β} : result (action >>= next) lib =
      match result action lib with
      | (.ok value, after) => result (next value) after
      | (.error error, after) => (.error error, after) := by
  unfold result
  rw [ExceptT.run_bind, StateT.run_bind, Id.run_bind]
  rcases Id.run (action.run.run lib) with ⟨_ | value, after⟩ <;> rfl

@[simp]
theorem result_get : result get lib = (.ok lib, lib) := rfl

@[simp]
theorem result_modify {change : Library → Library} :
    result (modify change) lib = (.ok (), change lib) := rfl

@[simp]
theorem result_rethrow : result (rethrow change action) lib =
      match result action lib with
      | (.ok value, after) => (.ok value, after)
      | (.error error, after) => (.error (change error), after) := by
  simp only [result, rethrow, ExceptT.run_adapt, StateT.run_map, Id.run_map]
  rcases Id.run (action.run.run lib) with ⟨_ | value, after⟩ <;> rfl

theorem Loading.ext {first second : Loading α}
    (same : ∀ lib, result first lib = result second lib) : first = second :=
  funext same

theorem rethrow_map {action : Loading β} {view : β → α} :
    rethrow change (action >>= fun value => pure (view value)) =
      rethrow change action >>= fun value => pure (view value) := by
  refine Loading.ext fun lib => ?_
  simp only [result_rethrow, result_bind]
  rcases result action lib with ⟨error | value, after⟩ <;> rfl

def leaves (action : Loading α) (before : Library) : Library := (Id.run (action.run.run before)).2

def Loads {α : Type} (action : Loading α) (before : Library) (value : α) (after : Library) :
    Prop :=
  Id.run (action.run.run before) = (.ok value, after)

section Loads

variable {value : α}

@[simp]
theorem loads_pure {given : α} :
    Loads (pure given) before value after ↔ given = value ∧ before = after := by
  simp [Loads]

@[simp]
theorem loads_bind {action : Loading β} : Loads (action >>= next) before value after ↔
      ∃ result between, Loads action before result between ∧
        Loads (next result) between value after := by
  unfold Loads
  rw [ExceptT.run_bind, StateT.run_bind, Id.run_bind]
  rcases Id.run (action.run.run before) with ⟨_ | result, between⟩ <;> simp [and_assoc]

@[simp]
theorem loads_throw : Loads (throw error : Loading α) before value after ↔ False := by
  simp [Loads]

@[simp]
theorem loads_lift :
    Loads (lift outcome) before value after ↔ outcome = .ok value ∧ before = after := by
  cases outcome <;> simp [lift]

@[simp]
theorem loads_get : Loads get before lib after ↔ before = lib ∧ before = after := by
  change ((.ok before, before) : Except Error Library × Library) = (.ok lib, after) ↔ _
  simp

@[simp]
theorem loads_modify {change : Library → Library} {result : Unit} :
    Loads (modify change) before result after ↔ change before = after := by
  change ((.ok (), change before) : Except Error Unit × Library) = (.ok result, after) ↔ _
  simp

@[simp]
theorem loads_rethrow :
    Loads (rethrow change action) before value after ↔ Loads action before value after := by
  simp only [Loads, rethrow, ExceptT.run_adapt, StateT.run_map, Id.run_map]
  rcases Id.run (action.run.run before) with ⟨_ | result, between⟩
  · constructor <;> rintro ⟨⟩
  · rfl

end Loads

/-! ## What holds afterwards -/

/-- An outcome is an error of one kind or a value of another. -/
def Judged (wrong : Error → Prop) (good : α → Prop) : Except Error α → Prop
  | .error error => wrong error
  | .ok value => good value

/-- Something keeps a property of libraries, whether it succeeds or fails, and ends with errors and
values of some kinds. -/
def Ensures (valid : Library → Prop) (wrong : Error → Prop) (good : α → Prop)
    (action : Loading α) : Prop :=
  ∀ library, valid library →
    Judged wrong good (result action library).1 ∧ valid (result action library).2

abbrev Preserves (valid : Library → Prop) (action : Loading α) : Prop :=
  Ensures valid (fun _ => True) (fun _ => True) action

section Ensures

variable {valid : Library → Prop} {wrong : Error → Prop} {good : α → Prop} {fine : β → Prop}

namespace Ensures

variable {inner : Error → Prop}

theorem pure (isGood : good value) : Ensures valid wrong good (Pure.pure value) :=
  fun _ isValid => ⟨isGood, isValid⟩

theorem throw (isWrong : wrong error) :
    Ensures valid wrong good (MonadExcept.throw error : Loading α) :=
  fun _ isValid => ⟨isWrong, isValid⟩

theorem lift (fails : ∀ error, outcome = .error error → wrong error)
    (gives : ∀ value, outcome = .ok value → good value) :
    Ensures valid wrong good (Library.lift outcome) := by
  cases outcome with
  | error error => exact throw (fails error rfl)
  | ok value => exact pure (gives value rfl)

theorem bind {action : Loading β} (first : Ensures valid wrong fine action)
    (continues : ∀ value, fine value → Ensures valid wrong good (next value)) :
    Ensures valid wrong good (action >>= next) := by
  intro lib isValid
  obtain ⟨judged, kept⟩ := first lib isValid
  rw [result_bind]
  rcases outcome : result action lib with ⟨error | value, after⟩ <;>
    rw [outcome] at judged kept
  · exact ⟨judged, kept⟩
  · exact continues value judged after kept

theorem rethrow (ensures : Ensures valid inner good action)
    (changes : ∀ error, inner error → wrong (change error)) :
    Ensures valid wrong good (Library.rethrow change action) := by
  intro lib isValid
  obtain ⟨judged, kept⟩ := ensures lib isValid
  rw [result_rethrow]
  rcases outcome : result action lib with ⟨error | value, after⟩ <;>
    rw [outcome] at judged kept
  · exact ⟨changes error judged, kept⟩
  · exact ⟨judged, kept⟩

theorem getBind {next : Library → Loading α}
    (continues : ∀ lib, valid lib → Ensures valid wrong good (next lib)) :
    Ensures valid wrong good (get >>= next) :=
  fun lib isValid => continues lib isValid lib isValid

theorem modifying {change : Library → Library} (changes : ∀ lib, valid lib → valid (change lib)) :
    Ensures valid wrong (fun _ => True) (modify change : Loading Unit) :=
  fun lib isValid => ⟨trivial, changes lib isValid⟩

theorem foldlM {items : List β} {round : α → β → Loading α} {start : α} (isGood : good start)
    (rounds : ∀ item ∈ items, ∀ value, good value → Ensures valid wrong good (round value item)) :
    Ensures valid wrong good (items.foldlM round start) := by
  induction items generalizing start with
  | nil => exact pure isGood
  | cons first rest ih =>
    obtain ⟨firstRound, restRounds⟩ := List.forall_mem_cons.mp rounds
    rw [List.foldlM_cons]
    exact (firstRound start isGood).bind fun value isGood => ih isGood restRounds

theorem weaken {better : α → Prop}
    (ensures : Ensures valid inner better action) (errors : ∀ error, inner error → wrong error)
    (values : ∀ value, better value → good value) : Ensures valid wrong good action := by
  intro lib isValid
  obtain ⟨judged, kept⟩ := ensures lib isValid
  refine ⟨?_, kept⟩
  cases outcome : (result action lib).1 with
  | error error => exact errors error (by rwa [outcome] at judged)
  | ok value => exact values value (by rwa [outcome] at judged)

theorem of_loads (ensures : Ensures valid wrong good action)
    (loads : Loads action before value after) (isValid : valid before) :
    good value ∧ valid after := by
  have kept := ensures before isValid
  rwa [show result action before = (.ok value, after) from loads] at kept

end Ensures

theorem preserves_pure : Preserves valid (pure value) := .pure trivial

theorem preserves_lift : Preserves valid (lift outcome) :=
  .lift (fun _ _ => trivial) fun _ _ => trivial

theorem Preserves.bind {action : Loading β}
    (preserves : Preserves valid action) (preservesNext : ∀ value, Preserves valid (next value)) :
    Preserves valid (action >>= next) :=
  Ensures.bind preserves fun value _ => preservesNext value

theorem Preserves.rethrow (preserves : Preserves valid action) :
    Preserves valid (rethrow change action) :=
  Ensures.rethrow preserves fun _ => id

theorem Preserves.of_loads (preserves : Preserves valid action)
    (loads : Loads action before value after) (isValid : valid before) : valid after :=
  (Ensures.of_loads preserves loads isValid).2

theorem preserves_of_leaves (leaves : ∀ lib, valid lib → valid (result action lib).2) :
    Preserves valid action := by
  refine fun lib isValid => ⟨?_, leaves lib isValid⟩
  cases (result action lib).1 <;> trivial

end Ensures

/-! ## Programs -/

theorem lift_bind {outcome : Except Error β} {next : β → Except Error α} :
    lift (outcome >>= next) = lift outcome >>= fun value => lift (next value) := by
  cases outcome <;> rfl

def conclude (settings : Settings) (entry : Bool) (imported : Interface) (program : Program) :
    Except Error (Program × Interface) := do
  Check.checkDefinitions entry imported program
  if settings.typecheck then
    let (program, returns) ← Inference.inferProgram imported program
    return (program, exports imported returns program)
  else return (program, exports imported [] program)

theorem analyzeProgram_eq : analyzeProgram opts entry resolve prog =
      importAll resolve prog >>= fun imported =>
        lift (conclude opts entry imported prog) := by
  refine bind_congr fun imported => ?_
  unfold conclude
  rw [lift_bind]
  refine bind_congr fun _ => ?_
  split
  · rw [lift_bind]
    rfl
  · rfl

theorem loads_analyzeProgram {analyzed : Program × Interface} :
    Loads (analyzeProgram opts entry resolve prog) before analyzed after ↔
      ∃ imported, Loads (importAll resolve prog) before imported after ∧
        conclude opts entry imported prog = .ok analyzed := by
  rw [analyzeProgram_eq]
  simp only [loads_bind, loads_lift]
  constructor
  · rintro ⟨imported, _, imports, concluded, rfl⟩
    exact ⟨imported, imports, concluded⟩
  · rintro ⟨imported, imports, concluded⟩
    exact ⟨imported, after, imports, concluded, rfl⟩

theorem conclude_eq_ok {imported iface : Interface} {annotated : Program}
    (concluded : conclude opts entry imported prog = .ok (annotated, iface)) :
    Check.checkDefinitions entry imported prog = .ok () ∧
      ∃ returns, exports imported returns annotated = iface ∧
        (opts.typecheck = true ∧
            Inference.inferProgram imported prog = .ok (annotated, returns) ∨
          opts.typecheck = false ∧ prog = annotated ∧ returns = []) := by
  obtain ⟨_, checked, concluded⟩ := bind_eq_ok.mp concluded
  refine ⟨checked, ?_⟩
  split at concluded
  next typed =>
    simp only [bind_eq_ok, pure_eq_ok, Prod.exists, Prod.mk.injEq] at concluded
    obtain ⟨_, returns, inferred, rfl, rfl⟩ := concluded
    exact ⟨returns, rfl, .inl ⟨typed, inferred⟩⟩
  next untyped =>
    cases concluded
    exact ⟨[], rfl, .inr ⟨by simpa using untyped, rfl, rfl⟩⟩

section Rules

variable {valid : Library → Prop} {wrong : Error → Prop}

theorem Ensures.analyzeProgram {good : Program × Interface → Prop}
    (resolves : ∀ decl ∈ prog.imports,
      Ensures valid wrong (fun _ => True) (resolve decl.source decl.span))
    (imports : ∀ decl ∈ prog.imports, ∀ iface imported error,
      Check.importNames iface imported decl = .error error → wrong error)
    (fails : ∀ imported error, conclude opts entry imported prog = .error error →
      wrong error) (gives : ∀ imported analyzed, conclude opts entry imported prog = .ok analyzed →
      good analyzed) : Ensures valid wrong good (analyzeProgram opts entry resolve prog) := by
  have looks : Ensures valid wrong (fun _ => True) (importAll resolve prog) :=
    .foldlM trivial fun decl mem imported _ =>
      (resolves decl mem).bind fun iface _ =>
        .lift (imports decl mem iface imported) fun _ _ => trivial
  rw [analyzeProgram_eq]
  exact looks.bind fun imported _ => .lift (fails imported) (gives imported)

theorem preserves_analyzeProgram (preserves : ∀ src span, Preserves valid (resolve src span))
    (prog : Program) : Preserves valid (analyzeProgram opts entry resolve prog) :=
  .analyzeProgram (fun _ _ => preserves _ _) (fun _ _ _ _ _ _ => trivial)
    (fun _ _ _ => trivial) fun _ _ _ => trivial

theorem preserves_compileEntry
    (preserves : ∀ name span, Preserves valid (compiledModule opts name span))
    (prog : Program) : Preserves valid (compileEntry opts file src prog) := by
  refine Preserves.rethrow (Preserves.bind ?_ fun _ => preserves_lift)
  exact Ensures.foldlM trivial fun decl _ links _ =>
    (preserves _ _).bind fun _ => preserves_lift

end Rules

/-! ## Modules -/

def readModule (settings : Settings) (atWork : List String) (name : String) (span : Span)
    (text : String × String) : Loading Analyzed := do
  let (program, interface) ←
    rethrow (fun error => (error.inFile text.1).reraise name span)
      (lift (Program.ofText text.2) >>=
        analyzeProgram settings false (interface settings (atWork ++ [name])))
  let known : Analyzed := ⟨name, text.1, program, interface⟩
  modify fun library => { library with analyzed := known :: library.analyzed }
  return known

theorem analyzeModule_eq (opts : Settings) (atWork : List String) (name : String) (span : Span) :
    analyzeModule opts atWork name span = (do
      match (← get).analyzed? name with
      | some known => return known
      | none =>
        if name ∈ atWork then
          throw (.located (.recursiveModules (String.intercalate " -> " (atWork ++ [name]))) span)
        else
          let text ← lift (opts.catalogue.textOf name span)
          readModule opts atWork name span text) := by
  rw [analyzeModule]
  refine bind_congr fun lib => ?_
  cases lib.analyzed? name with
  | some known => rfl
  | none =>
    by_cases working : name ∈ atWork
    · rw [dif_pos working, if_pos working]
    · rw [dif_neg working, if_neg working]
      dsimp only [Catalogue.textOf]
      split
      next found =>
        rw [found]
        rfl
      next supply found =>
        rw [found]
        rfl

theorem loads_readModule : Loads (readModule opts atWork name span text) before known after ↔
      ∃ prog, Program.ofText text.2 = .ok prog ∧ ∃ annotated iface between, Loads
          (analyzeProgram opts false (Library.interface opts (atWork ++ [name])) prog)
          before (annotated, iface) between ∧
        ⟨name, text.1, annotated, iface⟩ = known ∧
        { between with analyzed := ⟨name, text.1, annotated, iface⟩ :: between.analyzed } =
          after := by
  simp only [readModule, loads_bind, loads_rethrow, loads_lift, loads_modify, loads_pure,
    Prod.exists]
  constructor
  · rintro ⟨annotated, iface, between, ⟨prog, _, ⟨read, rfl⟩, analyzed⟩, _, _, rfl, rfl, rfl⟩
    exact ⟨prog, read, annotated, iface, between, analyzed, rfl, rfl⟩
  · rintro ⟨prog, read, annotated, iface, between, analyzed, rfl, rfl⟩
    exact ⟨annotated, iface, between, ⟨prog, before, ⟨read, rfl⟩, analyzed⟩, (), _, rfl, rfl, rfl⟩

/-- How a module is found: it was known before, or its text has been read. -/
theorem loads_analyzeModule : Loads (analyzeModule opts atWork name span) before known after ↔
      (before.analyzed? name = some known ∧ before = after) ∨
      (before.analyzed? name = none ∧ name ∉ atWork ∧
        ∃ text, opts.catalogue.textOf name span = .ok text ∧
          Loads (readModule opts atWork name span text) before known after) := by
  rw [analyzeModule_eq]
  simp only [loads_bind, loads_get]
  constructor
  · rintro ⟨_, _, ⟨rfl, rfl⟩, loads⟩
    cases isKnown : before.analyzed? name with
    | some other =>
      simp only [isKnown, loads_pure] at loads
      exact .inl ⟨congrArg some loads.1, loads.2⟩
    | none =>
      simp only [isKnown] at loads
      split at loads
      next => simp at loads
      next notWorking =>
        simp only [loads_bind, loads_lift] at loads
        obtain ⟨text, _, ⟨isText, rfl⟩, loads⟩ := loads
        exact .inr ⟨rfl, notWorking, text, isText, loads⟩
  · rintro (⟨isKnown, rfl⟩ | ⟨isNew, notWorking, text, isText, loads⟩)
    · exact ⟨before, before, ⟨rfl, rfl⟩, by simp [isKnown]⟩
    · refine ⟨before, before, ⟨rfl, rfl⟩, ?_⟩
      simp only [isNew, if_neg notWorking, loads_bind, loads_lift]
      exact ⟨text, before, ⟨isText, rfl⟩, loads⟩

theorem analyzed?_of_loads
    (loads : Loads (analyzeModule opts atWork name span) before known after) :
    after.analyzed? name = some known := by
  rcases loads_analyzeModule.mp loads with ⟨isKnown, rfl⟩ | ⟨-, -, text, -, loads⟩
  · exact isKnown
  · obtain ⟨_, -, _, _, _, -, rfl, rfl⟩ := loads_readModule.mp loads
    simp [analyzed?]

theorem loads_interface (loads : Loads (analyzeModule opts atWork name span) before known after) :
    Loads (interface opts atWork name span) before known.interface after :=
  loads_bind.mpr ⟨known, after, loads, rfl⟩

theorem idleCount_lt_of_textOf
    (isText : catalogue.textOf name span = .ok text) (fresh : ¬ name ∈ atWork) :
    idleCount catalogue.supplies (atWork ++ [name]) < idleCount catalogue.supplies atWork := by
  unfold Catalogue.textOf at isText
  split at isText
  next => cases isText
  next supply found => exact idleCount_append_lt found fresh

/-- What is left behind when a module is looked for: what was there, what the text of the module
needs, or what there is when it has been found. -/
theorem leaves_analyzeModule (isValid : valid before)
    (needs : ∀ text prog, before.analyzed? name = none → name ∉ atWork →
      opts.catalogue.textOf name span = .ok text →
      valid (result (analyzeProgram opts false (interface opts (atWork ++ [name])) prog) before).2)
    (finds : ∀ known after, Loads (analyzeModule opts atWork name span) before known after →
      valid after) : valid (result (analyzeModule opts atWork name span) before).2 := by
  rcases found : result (analyzeModule opts atWork name span) before with
    ⟨error | known, after⟩
  · rw [← found, analyzeModule_eq, result_bind, result_get]
    dsimp only
    cases isKnown : before.analyzed? name with
    | some known => exact isValid
    | none =>
      dsimp only
      split
      next => exact isValid
      next notWorking =>
        rw [result_bind, result_lift]
        cases isText : opts.catalogue.textOf name span with
        | error error => exact isValid
        | ok text =>
          dsimp only [readModule]
          rw [result_bind, result_rethrow, result_bind, result_lift]
          cases read : Program.ofText text.2 with
          | error error => exact isValid
          | ok prog =>
            have left := needs text prog isKnown notWorking isText
            dsimp only
            rcases analyzed : result (analyzeProgram opts false
              (interface opts (atWork ++ [name])) prog) before with
              ⟨error | ⟨annotated, iface⟩, between⟩
            · rwa [analyzed] at left
            · exact finds _ _ (loads_analyzeModule.mpr (.inr ⟨isKnown, notWorking, text, isText,
                loads_readModule.mpr ⟨prog, read, annotated, iface, between, analyzed, rfl,
                  rfl⟩⟩))
  · exact finds known after found

theorem Ensures.analyzeModule {wrong : Error → Prop}
    (recursive : ∀ mods, wrong (.located (.recursiveModules mods) span))
    (missing : ∀ error, opts.catalogue.textOf name span = .error error → wrong error)
    (reads : ∀ text, opts.catalogue.textOf name span = .ok text → name ∉ atWork →
      Ensures valid (fun error => wrong ((error.inFile text.1).reraise name span)) (fun _ => True)
        (Library.lift (Program.ofText text.2) >>=
          Library.analyzeProgram opts false (interface opts (atWork ++ [name]))))
    (keeps : ∀ lib file prog iface, valid lib →
      valid { lib with analyzed := ⟨name, file, prog, iface⟩ :: lib.analyzed }) :
    Ensures valid wrong (fun _ => True) (Library.analyzeModule opts atWork name span) := by
  rw [analyzeModule_eq]
  refine .getBind fun lib _ => ?_
  split
  · exact .pure trivial
  · split
    next => exact .throw (recursive _)
    next notWorking =>
      refine .bind (.lift missing fun _ isText => isText) fun text isText => ?_
      refine .bind ((reads text isText notWorking).rethrow fun _ => id) fun analyzed _ => ?_
      exact .bind (.modifying fun lib => keeps lib _ _ _) fun _ _ => .pure trivial

/-! ## First programs -/

def entryText (settings : Settings) (name source : String) : Loading (Program × Interface) := do
  let program ← lift (Program.ofText source)
  let program ←
    if name != preludeName && settings.catalogue.offers preludeName then do
      pure (withPrelude (← interface settings [name] preludeName .nowhere) program)
    else pure program
  analyzeProgram settings true (interface settings [name]) program

theorem analyzeEntry_eq (opts : Settings) (file src : String) : analyzeEntry opts file src =
      rethrow (inEntry file src) (entryText opts (Path.moduleName file) src) >>=
        fun analyzed => pure analyzed.1 := by
  rw [← rethrow_map, entryText, analyzeEntry, bind_assoc]
  refine congrArg (rethrow _) (bind_congr fun prog => ?_)
  split <;> simp only [bind_assoc]

theorem preserves_analyzeEntry
    (preserves : ∀ src span, Preserves valid (interface opts [Path.moduleName file] src span)) :
    Preserves valid (analyzeEntry opts file src) := by
  rw [analyzeEntry_eq]
  refine Preserves.bind (.rethrow (preserves_lift.bind fun prog => ?_)) fun _ => preserves_pure
  dsimp only
  split
  · exact (preserves _ _).bind fun _ => preserves_pure.bind (preserves_analyzeProgram preserves)
  · exact preserves_pure.bind (preserves_analyzeProgram preserves)

end Library

end StoneBoard
