import StoneBoard.Proofs.Annotation
import StoneBoard.Proofs.Checked

/-!
# Types that only rise

Each round of inference begins with what the rounds before it have found for the results of the
functions.  What is found for a definition is never less than the table tells already, so no round
takes anything back: the types of a result stay as many, and each of them tells more or the same.
-/

namespace StoneBoard

open List

namespace Inference

variable {shapes : String → Option Shape} {returns more after : Returns}
  {defns annotated : List Definition} {defn : Definition}

/-! ## Tables -/

theorem forall₂_below_trans {first second third : List Ty}
    (below : List.Forall₂ Ty.Below first second) (above : List.Forall₂ Ty.Below second third) :
    List.Forall₂ Ty.Below first third := by
  induction below generalizing third with
  | nil => exact above
  | cons below _ ih =>
    cases above with
    | cons above rest => exact .cons (below.trans above) (ih rest)

theorem TablesBelow.trans (below : TablesBelow returns more) (above : TablesBelow more after) :
    TablesBelow returns after := by
  intro name
  have first := below name
  have second := above name
  generalize returns.get? name = found, more.get? name = told, after.get? name = last
    at first second ⊢
  cases first with
  | none => exact second
  | some types =>
    cases second with
    | some others => exact .some (forall₂_below_trans types others)

theorem get?_foldl {step : Returns → Definition → Returns} {name : String}
    (skips : ∀ known other, other.name ≠ name → (step known other).get? name = known.get? name)
    (distinct : ∀ other ∈ defns, other.name ≠ name) (known : Returns) :
    (defns.foldl step known).get? name = known.get? name := by
  induction defns generalizing known with
  | nil => rfl
  | cons other others ih =>
    obtain ⟨differ, rest⟩ := List.forall_mem_cons.mp distinct
    rw [foldl_cons, ih rest, skips known other differ]

theorem get?_initialReturns {imported : Interface} (nodup : (defns.map Definition.name).Nodup)
    (mem : defn ∈ defns) (isNew : imported.get? defn.name = none) :
    (initialReturns imported defns).get? defn.name =
      defn.returnCount?.map fun count => List.replicate count .unknown := by
  unfold initialReturns
  generalize isStep : (fun (known : Returns) (other : Definition) => _) = step
  have skips (known : Returns) (other : Definition) (differ : other.name ≠ defn.name) :
      (step known other).get? defn.name = known.get? defn.name := by
    subst isStep
    dsimp only
    split
    · rw [Table.get?_insert, if_neg differ.symm]
    · rfl
  obtain ⟨before, rest, rfl⟩ := append_of_mem mem
  rw [map_append, map_cons, nodup_append, nodup_cons] at nodup
  obtain ⟨-, ⟨notLater, -⟩, notBefore⟩ := nodup
  rw [foldl_append, foldl_cons, get?_foldl skips fun other isOther same =>
    notLater (same ▸ mem_map_of_mem isOther)]
  have earlier := get?_foldl skips fun other (isOther : other ∈ before) =>
    notBefore _ (mem_map_of_mem isOther) _ mem_cons_self
  subst isStep
  dsimp only
  cases defn.returnCount? with
  | some count => rw [Table.get?_insert, if_pos rfl, Option.map_some]
  | none =>
    rw [Option.map_none, earlier, Table.get?_eq_none_iff]
    intro listed
    obtain ⟨_, isResult, same⟩ := List.mem_map.mp listed
    obtain ⟨entry, isFunction, rfl⟩ := List.mem_map.mp isResult
    exact Table.get?_eq_none_iff.mp isNew
      (List.mem_map.mpr ⟨entry, mem_of_mem_filter isFunction, same⟩)

/-! ## Rounds -/

/-- Whoever knows at least as much as a table finds for each definition what the table tells of it,
or more. -/
structure Rising (shapes : String → Option Shape) (returns : Returns)
    (definitions : List Definition) : Prop where
  nodup : (definitions.map Definition.name).Nodup
  regular : ∀ definition ∈ definitions, definition.Regular shapes
  exceeds : ∀ definition ∈ definitions, ∀ more annotated result, TablesBelow returns more →
    inferDefinition more definition = .ok (annotated, result) →
    Option.Rel (List.Forall₂ Ty.Below) (returns.get? definition.name) result

theorem rel_of_slotBelow {found told : Option (List Ty)} (below : SlotBelow found told)
    (sameLength : found.map List.length = told.map List.length) :
    Option.Rel (List.Forall₂ Ty.Below) found told := by
  cases found with
  | none =>
    cases told with
    | none => exact .none
    | some => cases sameLength
  | some types =>
    obtain ⟨others, rfl, each⟩ := below types rfl
    exact .some each

theorem rising_initialReturns {imported : Interface} (nodup : (defns.map Definition.name).Nodup)
    (isNew : ∀ defn ∈ defns, imported.get? defn.name = none)
    (regular : ∀ defn ∈ defns, defn.Regular shapes) :
    Rising shapes (initialReturns imported defns) defns := by
  refine ⟨nodup, regular, fun defn mem more annotated result _ inferred => ?_⟩
  have counts := length_inferDefinition (regular defn mem) inferred
  rw [get?_initialReturns nodup mem (isNew defn mem), ← counts]
  cases result with
  | none => exact .none
  | some types =>
    refine .some (List.forall₂_iff_get.mpr ⟨length_replicate, fun index _ _ => ?_⟩)
    simp [Ty.unknown_below]

theorem Rising.step {before rest : List Definition} {first newFirst : Definition}
    {result : Option (List Ty)} (rising : Rising shapes returns (before ++ first :: rest))
    (inferred : inferDefinition returns first = .ok (newFirst, result)) :
    TablesBelow returns (updated returns newFirst.name result) ∧
      Rising shapes (updated returns newFirst.name result) (before ++ newFirst :: rest) := by
  have keeps := keeps_inferDefinition inferred
  have told := rising.exceeds first (by simp) returns newFirst result (.refl returns) inferred
  have lookup (name : String) : (updated returns newFirst.name result).get? name =
      if name = first.name then result else returns.get? name := by
    rw [get?_updated, keeps.name]
    generalize returns.get? first.name = known at told ⊢
    cases told <;> rfl
  have rises : TablesBelow returns (updated returns newFirst.name result) := by
    intro name
    rw [lookup]
    split
    next same => exact same ▸ told
    next => exact TablesBelow.refl returns name
  have nodup := rising.nodup
  have regular := rising.regular
  rw [← ((KeepsDefinitions.refl _).replace inferred).names] at nodup
  simp only [forall_mem_append, forall_mem_cons] at regular
  have newRegular := keeps.regular shapes regular.2.1
  refine ⟨rises, nodup, ?_, fun defn mem more annotated types below found => ?_⟩
  · simp only [forall_mem_append, forall_mem_cons]
    exact ⟨regular.1, newRegular, regular.2.2⟩
  rw [lookup]
  split
  next same =>
    -- the definition is the one that has just had its turn, and is now asked with more known
    obtain rfl : defn = newFirst :=
      inj_on_of_nodup_map nodup mem (by simp) (same.trans keeps.name.symm)
    obtain ⟨_, again, refines⟩ :=
      (inferDefinition_tracks (rises.trans below) (Eq.symm keeps)).tracks _ found
    cases again.symm.trans inferred
    apply rel_of_slotBelow refines.known
    rw [length_inferDefinition regular.2.1 inferred, length_inferDefinition newRegular found,
      ← Definition.returnCount?_bare, ← keeps, Definition.returnCount?_bare]
  next differ =>
    have isOld : defn ∈ before ++ first :: rest := by
      rcases List.mem_append.mp mem with early | late
      · exact mem_append_left _ early
      · rcases List.mem_cons.mp late with rfl | later
        · exact absurd keeps.name differ
        · exact mem_append_right _ (mem_cons_of_mem _ later)
    exact rising.exceeds defn isOld more annotated types (rises.trans below) found

/-- What fewer rounds find is below what more rounds find. -/
theorem Rising.inferRounds (rising : Rising shapes returns defns) {fewer rounds : Nat}
    (isFewer : fewer ≤ rounds)
    (inferred : inferRounds returns defns rounds = .ok (annotated, after)) :
    ∃ early before, inferRounds returns defns fewer = .ok (early, before) ∧
      TablesBelow before after := by
  induction fewer generalizing returns defns rounds with
  | zero =>
    have rises := inferRounds_rec (motive := fun found others => TablesBelow returns found ∧
      Rising shapes found others) (fun known inferred => ⟨known.1.trans (known.2.step inferred).1,
        (known.2.step inferred).2⟩) ⟨.refl returns, rising⟩ inferred
    exact ⟨defns, returns, rfl, rises.1⟩
  | succ fewer ih =>
    obtain ⟨others, rfl⟩ := Nat.exists_eq_add_of_le isFewer
    rw [Nat.add_right_comm] at inferred
    simp only [Inference.inferRounds, bind_eq_ok, Prod.exists] at inferred ⊢
    obtain ⟨middle, between, changed, inferredRound, inferred⟩ := inferred
    have next : Rising shapes between middle :=
      inferRound_rec (fun known inferred => (known.step inferred).2) [] rising inferredRound
    cases changed with
    | true =>
      obtain ⟨early, before, isEarly, below⟩ := ih next (Nat.le_add_right fewer others) inferred
      exact ⟨early, before, ⟨middle, between, true, inferredRound, isEarly⟩, below⟩
    | false =>
      cases inferred
      exact ⟨annotated, after, ⟨annotated, after, false, inferredRound, rfl⟩, .refl after⟩

/-! ## Definitions and programs -/

def Facts.start (definition : Definition) : Facts :=
  ⟨definition.parameters.map fun name => (name, .unknown), none⟩

theorem inferDefinition_eq_ok {body : List Stmt} {facts : Facts}
    (inferred : inferBlock returns (.start defn) defn.body = .ok (body, facts)) :
    inferDefinition returns defn = .ok ({ defn with body }, facts.result) := by
  rw [Facts.start] at inferred
  simp only [inferDefinition, inferred]
  rfl

/-- A table that tells more leads to types that tell more, for the results of a definition, its
variables and each of its slots; so from round to round the table of a checked program keeps the
number of types of each result and only rises. -/
theorem inferred_types_only_rise :
    (∀ (definition : Definition) (returns more : Returns) (told : List Stmt) (later : Facts),
      TablesBelow returns more →
      inferBlock more (.start definition) definition.body = .ok (told, later) →
      inferDefinition more definition = .ok ({ definition with body := told }, later.result) ∧
      ∃ found facts,
        inferBlock returns (.start definition) definition.body = .ok (found, facts) ∧
        inferDefinition returns definition = .ok ({ definition with body := found }, facts.result) ∧
        SlotsBelow (Stmt.slotsAll found) (Stmt.slotsAll told) ∧
        VariablesBelow facts.locals later.locals ∧ SlotBelow facts.result later.result) ∧
    ∀ (entry : Bool) (imported : Interface) (program : Program) (fewer rounds : Nat)
      (annotated : List Definition) (after : Returns),
      Check.checkDefinitions entry imported program = .ok () → fewer ≤ rounds →
      inferRounds (initialReturns imported program.definitions) program.definitions rounds =
        .ok (annotated, after) →
      ∃ early before,
        inferRounds (initialReturns imported program.definitions) program.definitions fewer =
          .ok (early, before) ∧
        TablesBelow before after := by
  constructor
  · intro definition returns more told later tables inferred
    obtain ⟨⟨found, facts⟩, isFound, refines⟩ :=
      (inferBlock_tracks (fun _ => none) tables (.refl _) definition.body definition.body
        rfl).tracks _ inferred
    exact ⟨inferDefinition_eq_ok inferred, found, facts, isFound, inferDefinition_eq_ok isFound,
      refines.slots rfl, refines.known.under.locals, refines.known.under.result⟩
  · intro entry imported program fewer rounds annotated after checked isFewer inferred
    obtain ⟨-, nodup, isNew, locals, -, definitionsChecked⟩ := Check.checkDefinitions_eq_ok checked
    let environment : Check.Environment := ⟨locals, imported⟩
    have rising : Rising (fun name => (environment.lookup? name).map RoutineInfo.shape)
        (initialReturns imported program.definitions) program.definitions :=
      rising_initialReturns nodup (fun definition member => (isNew definition member).2)
        fun definition member =>
          Check.regular_of_checkDefinition (definitionsChecked definition member)
    exact rising.inferRounds isFewer inferred

def relaying : Definition where
  kind := .function
  name := "relay"
  parameters := ["x"]
  body := [.assign "y" (.call "increment" [.variableRef "x" .nowhere] .nowhere none) .nowhere,
    .returns [.variableRef "y" .nowhere] .nowhere none]
  span := .nowhere

def incrementing : Definition where
  kind := .function
  name := "increment"
  parameters := ["x"]
  body := [.returns [.binary .add (.variableRef "x" .nowhere) (.literal (.int 1) .nowhere) .nowhere]
    .nowhere none]
  span := .nowhere

theorem relay_rises :
    (∃ found told facts later,
      inferBlock [("increment", [.unknown])] (.start relaying) relaying.body = .ok (found, facts) ∧
      inferBlock [("increment", [.int])] (.start relaying) relaying.body = .ok (told, later) ∧
      VariablesBelow facts.locals later.locals ∧
      variableType facts.locals "y" = .unknown ∧ variableType later.locals "y" = .int) ∧
    ∃ early before annotated after,
      inferRounds (initialReturns [] [relaying, incrementing]) [relaying, incrementing] 1 =
        .ok (early, before) ∧
      inferRounds (initialReturns [] [relaying, incrementing]) [relaying, incrementing] 2 =
        .ok (annotated, after) ∧
      TablesBelow before after ∧
      before.get? "relay" = some [.unknown] ∧ after.get? "relay" = some [.int] := by
  have tables : TablesBelow [("increment", [.unknown])] [("increment", [.int])] := by
    intro name
    rw [Table.get?_cons, Table.get?_cons]
    split
    · exact .some (.cons (Ty.unknown_below .int) .nil)
    · exact .none
  constructor
  · obtain ⟨-, found, facts, isFound, -, -, locals, -⟩ :=
      inferred_types_only_rise.1 relaying _ _ _ _ tables rfl
    cases isFound
    exact ⟨_, _, _, _, rfl, rfl, locals, by decide, by decide⟩
  · have checked : Check.checkDefinitions false [] ⟨[], [relaying, incrementing]⟩ = .ok () := by
      decide +kernel
    obtain ⟨early, before, isEarly, below⟩ :=
      inferred_types_only_rise.2 _ _ _ 1 2 _ _ checked (by decide) rfl
    cases isEarly
    exact ⟨_, _, _, _, rfl, rfl, below, by decide, by decide⟩

end Inference

end StoneBoard
