import Mathlib.Data.List.Nodup
import StoneBoard.Proofs.Refining

/-!
# Programs with their types

Type inference fills the slots for types and changes nothing else: the bare form of a
program stays the same.  The types that it finds for the results of a function are as many as
the function has results.
-/

namespace StoneBoard

open List

namespace Inference

variable {types : List Ty} {facts after : Facts} {span : Span} {annotated defn : Definition}
  {result : Option (List Ty)} {prog : Program} {returns : Returns}
variable {shapes : String → Option Shape} {count : String → Nat → Prop}

/-! ## Definitions -/

theorem length_inferExprs {locals : Variables} {exprs annotated : List Expr}
    (inferred : inferExprs returns locals exprs = .ok (annotated, types)) :
    types.length = exprs.length := by
  induction exprs generalizing annotated types with
  | nil =>
    cases inferred
    rfl
  | cons first rest ih =>
    simp only [inferExprs, bind_eq_ok, pure_eq_ok, Prod.exists, Prod.mk.injEq] at inferred
    obtain ⟨newFirst, firstType, -, newRest, restTypes, inferredRest, -, rfl⟩ := inferred
    rw [length_cons, length_cons, ih inferredRest]

theorem inferBlock_concat {body annotated : List Stmt} {last : Stmt}
    (inferred : inferBlock returns facts (body ++ [last]) = .ok (annotated, after)) :
    ∃ newBody between newLast, inferBlock returns facts body = .ok (newBody, between) ∧
      inferStmt returns between last = .ok (newLast, after) ∧
      annotated = newBody ++ [newLast] := by
  induction body generalizing facts annotated with
  | nil =>
    simp only [nil_append, inferBlock, bind_eq_ok, pure_eq_ok, Prod.exists, Prod.mk.injEq,
      Except.ok.injEq] at inferred
    obtain ⟨newLast, _, inferredLast, _, _, ⟨rfl, rfl⟩, rfl, rfl⟩ := inferred
    exact ⟨[], facts, newLast, rfl, inferredLast, rfl⟩
  | cons first rest ih =>
    simp only [cons_append, inferBlock, bind_eq_ok, pure_eq_ok, Prod.exists,
      Prod.mk.injEq] at inferred ⊢
    obtain ⟨newFirst, middle, inferredFirst, _, _, inferredRest, rfl, rfl⟩ := inferred
    obtain ⟨newRest, between, newLast, inferredBody, inferredLast, rfl⟩ := ih inferredRest
    exact ⟨newFirst :: newRest, between, newLast,
      ⟨newFirst, middle, inferredFirst, newRest, between, inferredBody, rfl, rfl⟩, inferredLast,
      rfl⟩

/-- Filling the slots of a definition changes nothing but the slots. -/
def KeepsDefinition (original annotated : Definition) : Prop := annotated.bare = original.bare

namespace KeepsDefinition

theorem refl (defn : Definition) : KeepsDefinition defn defn := rfl

theorem trans {first second third : Definition} (before : KeepsDefinition first second)
    (after : KeepsDefinition second third) : KeepsDefinition first third :=
  Eq.trans after before

variable {orig annotated : Definition}

theorem kind (keeps : KeepsDefinition orig annotated) : annotated.kind = orig.kind := by
  change annotated.bare.kind = orig.bare.kind
  rw [keeps]

theorem name (keeps : KeepsDefinition orig annotated) : annotated.name = orig.name := by
  change annotated.bare.name = orig.bare.name
  rw [keeps]

theorem parameters (keeps : KeepsDefinition orig annotated) :
    annotated.parameters = orig.parameters := by
  change annotated.bare.parameters = orig.bare.parameters
  rw [keeps]

theorem regular (keeps : KeepsDefinition orig annotated) (shapes : String → Option Shape)
    (regular : orig.Regular shapes) : annotated.Regular shapes := by
  rw [← Definition.regular_bare] at regular ⊢
  exact keeps ▸ regular

theorem named (keeps : KeepsDefinition orig annotated) (named : orig.Named) :
    annotated.Named := by
  rw [← Definition.named_bare] at named ⊢
  exact keeps ▸ named

theorem returned_length (keeps : KeepsDefinition orig annotated) :
    annotated.returned.length = orig.returned.length := by
  rw [← Definition.returnCount?_eq, ← Definition.returnCount?_eq, ← Definition.returnCount?_bare,
    keeps, Definition.returnCount?_bare]

theorem shape (keeps : KeepsDefinition orig annotated) : annotated.shape = orig.shape := by
  rw [Definition.shape, ← Definition.info_bare, keeps, Definition.info_bare, Definition.shape]

theorem isMain (keeps : KeepsDefinition orig annotated) :
    annotated.isMain = orig.isMain := by
  rw [Definition.isMain, Definition.isMain, keeps.kind, keeps.name]

end KeepsDefinition

section Definitions

variable {returns : Returns} {defn : Definition} {facts after : Facts}
  {newBody : List Stmt}

theorem inferBlock_of_finalReturn?
    (inferred : inferBlock returns facts defn.body = .ok (newBody, after))
    {values : List Expr} {types : Option (List Ty)}
    (final : defn.finalReturn? = some (.returns values span types)) :
    ∃ body newValues newTypes between,
      inferBlock returns facts (Compilation.bodyBeforeReturn defn) = .ok (body, between) ∧
      inferExprs returns between.locals values = .ok (newValues, newTypes) ∧
      newBody = body ++ [.returns newValues span (some newTypes)] ∧
      after.result = some newTypes := by
  rcases eq_nil_or_concat' defn.body with isEmpty | ⟨body, last, isBody⟩
  · simp [Definition.finalReturn?, isEmpty] at final
  · rw [Compilation.bodyBeforeReturn, final]
    rw [isBody] at inferred ⊢
    rw [Definition.finalReturn?_concat isBody] at final
    obtain rfl : last = .returns values span types := by
      split at final
      · exact Option.some.inj final
      · cases final
    obtain ⟨newBody, between, newLast, inferredBody, inferredLast, rfl⟩ :=
      inferBlock_concat inferred
    simp only [inferStmt, bind_eq_ok, pure_eq_ok, Prod.exists, Prod.mk.injEq] at inferredLast
    obtain ⟨newValues, newTypes, inferredValues, rfl, rfl⟩ := inferredLast
    exact ⟨newBody, newValues, newTypes, between, by simpa using inferredBody, inferredValues, rfl,
      rfl⟩

theorem keeps_inferDefinition (inferred : inferDefinition returns defn = .ok (annotated, result)) :
    KeepsDefinition defn annotated := by
  obtain ⟨_, -, refines⟩ := (inferDefinition_tracks (.refl returns) rfl).tracks _ inferred
  exact refines.kept

theorem length_inferDefinition (regular : defn.Regular shapes)
    (inferred : inferDefinition returns defn = .ok (annotated, result)) :
    result.map List.length = defn.returnCount? := by
  simp only [inferDefinition, bind_eq_ok, pure_eq_ok, Prod.exists, Prod.mk.injEq] at inferred
  obtain ⟨newBody, after, inferredBody, -, rfl⟩ := inferred
  rcases defn.finalReturn?_cases with ⟨span, types, final⟩ | ⟨silent, -⟩
  · obtain ⟨_, _, newTypes, _, -, inferredValues, -, result⟩ :=
      inferBlock_of_finalReturn? inferredBody final
    rw [result, Option.map_some, length_inferExprs inferredValues, Definition.returnCount?, final]
    rfl
  · have bodyRegular := regular.body
    rw [Compilation.bodyBeforeReturn, silent] at bodyRegular
    obtain ⟨_, -, refines⟩ :=
      (inferBlock_tracks shapes (.refl returns) (.refl _) _ _ rfl).tracks _ inferredBody
    rw [refines.known.result bodyRegular, Definition.returnCount?, silent]
    rfl

end Definitions

/-! ## Rounds -/

def KeepsDefinitions : List Definition → List Definition → Prop :=
  List.Forall₂ KeepsDefinition

namespace KeepsDefinitions

variable {orig annotated : List Definition}

theorem refl (defns : List Definition) : KeepsDefinitions defns defns :=
  List.forall₂_same.mpr fun defn _ => .refl defn

theorem trans {last : List Definition} (before : KeepsDefinitions orig annotated)
    (after : KeepsDefinitions annotated last) : KeepsDefinitions orig last := by
  induction before generalizing last with
  | nil => exact after
  | cons keeps _ ih =>
    cases after with
    | cons keepsAgain keepsRest => exact .cons (keeps.trans keepsAgain) (ih keepsRest)

theorem names (keeps : KeepsDefinitions orig annotated) :
    annotated.map Definition.name = orig.map Definition.name := by
  induction keeps with
  | nil => rfl
  | cons keepsFirst _ ih => rw [map_cons, map_cons, keepsFirst.name, ih]

theorem bare_eq (keeps : KeepsDefinitions orig annotated) :
    annotated.map Definition.bare = orig.map Definition.bare := by
  induction keeps with
  | nil => rfl
  | cons keepsFirst _ ih =>
    rw [map_cons, map_cons, show Definition.bare _ = _ from keepsFirst, ih]

theorem exists_original (keeps : KeepsDefinitions orig annotated)
    (mem : defn ∈ annotated) : ∃ before ∈ orig, KeepsDefinition before defn := by
  induction keeps with
  | nil => cases mem
  | cons keepsFirst _ ih =>
    rcases List.mem_cons.mp mem with rfl | inRest
    · exact ⟨_, mem_cons_self, keepsFirst⟩
    · obtain ⟨before, beforeMember, keepsOne⟩ := ih inRest
      exact ⟨before, mem_cons_of_mem _ beforeMember, keepsOne⟩

theorem find? (keeps : KeepsDefinitions orig annotated) (name : String) :
    Option.Rel KeepsDefinition (orig.find? fun defn => defn.name == name)
      (annotated.find? fun defn => defn.name == name) := by
  induction keeps with
  | nil => exact .none
  | cons keepsFirst _ ih =>
    rw [find?_cons, find?_cons, keepsFirst.name]
    split
    · exact .some keepsFirst
    · exact ih

theorem definition? {changed : Program}
    (keeps : KeepsDefinitions prog.definitions changed.definitions) {name : String}
    (found : prog.definition? name = some defn) :
    ∃ other, changed.definition? name = some other ∧ KeepsDefinition defn other := by
  have related := keeps.find? name
  rw [← Program.definition?, found] at related
  cases isSome : changed.definition? name with
  | none =>
    rw [← Program.definition?, isSome] at related
    cases related
  | some other =>
    rw [← Program.definition?, isSome] at related
    cases related with
    | some keepsOne => exact ⟨other, rfl, keepsOne⟩

end KeepsDefinitions

def Counted (count : String → Nat → Prop) (returns : Returns) : Prop :=
  ∀ name types, returns.get? name = some types → count name types.length

theorem Counted.insert (counted : Counted count returns) {name : String}
    (fits : count name types.length) : Counted count (returns.insert name types) := by
  intro other found known
  rw [Table.get?_insert] at known
  split at known
  next same =>
    cases known
    exact same ▸ fits
  next => exact counted other found known

def updated (returns : Returns) (name : String) (result : Option (List Ty)) : Returns :=
  match result.filter fun types => returns.get? name != some types with
  | some types => returns.insert name types
  | none => returns

theorem get?_updated (returns : Returns) (name other : String) (result : Option (List Ty)) :
    (updated returns name result).get? other =
      if other = name then result.or (returns.get? name) else returns.get? other := by
  unfold updated
  split
  next types isNew =>
    obtain ⟨rfl, -⟩ := Option.filter_eq_some_iff.mp isNew
    exact Table.get?_insert returns name other types
  next isOld =>
    split
    next same =>
      subst same
      cases result with
      | none => rfl
      | some types => simpa using isOld
    next => rfl

theorem Counted.updated (counted : Counted count returns) {name : String}
    (fits : ∀ types, result = some types → count name types.length) :
    Counted count (updated returns name result) := by
  intro other types known
  rw [get?_updated] at known
  split at known
  next same =>
    subst same
    rcases Option.or_eq_some_iff.mp known with isNew | ⟨-, isOld⟩
    · exact fits types isNew
    · exact counted other types isOld
  next => exact counted other types known

section Rounds

variable {shapes : String → Option Shape} {count : String → Nat → Prop}
variable {after : Returns} {defns annotated : List Definition}
variable {changed : Bool} {rounds : Nat}

/-- A definition that is regular, and whose number of results is the expected one. -/
structure Countable (shapes : String → Option Shape) (count : String → Nat → Prop)
    (definition : Definition) : Prop where
  regular : definition.Regular shapes
  results : count definition.name definition.returned.length

theorem Countable.keeps {orig annotated : Definition}
    (countable : Countable shapes count orig) (keeps : KeepsDefinition orig annotated) :
    Countable shapes count annotated := by
  refine ⟨keeps.regular shapes countable.regular, ?_⟩
  rw [keeps.name, keeps.returned_length]
  exact countable.results

theorem inferRound_rec {motive : Returns → List Definition → Prop}
    (step : ∀ {returns before first rest newFirst result},
      motive returns (before ++ first :: rest) →
      inferDefinition returns first = .ok (newFirst, result) →
      motive (updated returns newFirst.name result) (before ++ newFirst :: rest))
    (before : List Definition) (start : motive returns (before ++ defns))
    (inferred : inferRound returns defns = .ok (annotated, after, changed)) :
    motive after (before ++ annotated) := by
  induction defns generalizing returns before annotated changed with
  | nil =>
    cases inferred
    exact start
  | cons first rest ih =>
    simp only [inferRound, bind_eq_ok, pure_eq_ok, Prod.exists, Prod.mk.injEq] at inferred
    obtain ⟨newFirst, result, inferredFirst, newRest, _, _, inferredRest, rfl, rfl, -⟩ := inferred
    have next := step start inferredFirst
    rw [append_cons] at next ⊢
    exact ih (before ++ [newFirst]) next inferredRest

theorem inferRounds_rec {motive : Returns → List Definition → Prop}
    (step : ∀ {returns before first rest newFirst result},
      motive returns (before ++ first :: rest) →
      inferDefinition returns first = .ok (newFirst, result) →
      motive (updated returns newFirst.name result) (before ++ newFirst :: rest))
    (start : motive returns defns)
    (inferred : inferRounds returns defns rounds = .ok (annotated, after)) :
    motive after annotated := by
  induction rounds generalizing returns defns with
  | zero =>
    cases inferred
    exact start
  | succ rounds ih =>
    simp only [inferRounds, bind_eq_ok, Prod.exists] at inferred
    obtain ⟨middle, between, changed, inferredRound, inferred⟩ := inferred
    have next : motive between middle := inferRound_rec step [] start inferredRound
    split at inferred
    · exact ih next inferred
    · cases inferred
      exact next

theorem KeepsDefinitions.replace {orig before rest : List Definition}
    {first newFirst : Definition} (keeps : KeepsDefinitions orig (before ++ first :: rest))
    (inferred : inferDefinition returns first = .ok (newFirst, result)) :
    KeepsDefinitions orig (before ++ newFirst :: rest) :=
  keeps.trans (rel_append (KeepsDefinitions.refl before)
    (.cons (keeps_inferDefinition inferred) (KeepsDefinitions.refl rest)))

theorem keeps_inferRound (inferred : inferRound returns defns = .ok (annotated, after, changed)) :
    KeepsDefinitions defns annotated :=
  inferRound_rec (motive := fun _ found => KeepsDefinitions defns found)
    (fun keeps inferred => keeps.replace inferred) [] (.refl defns) inferred

theorem keeps_inferRounds (inferred : inferRounds returns defns rounds = .ok (annotated, after)) :
    KeepsDefinitions defns annotated :=
  inferRounds_rec (motive := fun _ found => KeepsDefinitions defns found)
    (fun keeps inferred => keeps.replace inferred) (.refl defns) inferred

theorem counted_inferRounds (countable : ∀ defn ∈ defns, Countable shapes count defn)
    (counted : Counted count returns)
    (inferred : inferRounds returns defns rounds = .ok (annotated, after)) :
    Counted count after := by
  refine (inferRounds_rec (motive := fun returns found => Counted count returns ∧
    ∀ defn ∈ found, Countable shapes count defn) ?_ ⟨counted, countable⟩ inferred).1
  rintro returns before first rest newFirst result ⟨counted, countable⟩ inferred
  simp only [forall_mem_append, forall_mem_cons] at countable ⊢
  obtain ⟨beforeCountable, firstCountable, restCountable⟩ := countable
  have keeps := keeps_inferDefinition inferred
  have counts := length_inferDefinition firstCountable.regular inferred
  refine ⟨counted.updated fun types found => ?_, beforeCountable, firstCountable.keeps keeps,
    restCountable⟩
  have sameCount : types.length = first.returned.length := by
    rw [← Definition.returnCount?_eq, ← counts, found]
    rfl
  rw [keeps.name]
  exact sameCount ▸ firstCountable.results

end Rounds

/-! ## Programs -/

section Programs

variable {imported : Interface} {defns : List Definition}
variable {results : Returns}

def ResultCount (definitions : List Definition) (name : String) (count : Nat) : Prop :=
  ∀ definition ∈ definitions, definition.name = name → definition.returned.length = count

theorem resultCount_of_nodup (nodup : (defns.map Definition.name).Nodup) (mem : defn ∈ defns) :
    ResultCount defns defn.name defn.returned.length := by
  intro other otherMember sameName
  rw [inj_on_of_nodup_map nodup otherMember mem sameName]

theorem counted_initialReturns (nodup : (defns.map Definition.name).Nodup)
    (isNew : ∀ defn ∈ defns, imported.get? defn.name = none) :
    Counted (ResultCount defns) (initialReturns imported defns) := by
  unfold initialReturns
  refine List.foldlRecOn defns _ ?_ fun returns counted defn mem => ?_
  · intro name types known defn mem sameName
    obtain ⟨entry, isFunction, same⟩ := List.mem_map.mp (Table.mem_of_get? known)
    cases same
    have absent := Table.get?_eq_none_iff.mp (isNew defn mem)
    exact absurd (List.mem_map.mpr ⟨entry, mem_of_mem_filter isFunction, sameName.symm⟩) absent
  · split
    next count returns =>
      refine counted.insert ?_
      rw [length_replicate, ← Option.getD_some (a := count) (b := 0), ← returns,
        Definition.returnCount?_eq]
      exact resultCount_of_nodup nodup mem
    next => exact counted

/-- Inference only fills the slots of a program. -/
theorem bare_inferProgram {annotated : Program}
    (inferred : inferProgram imported prog = .ok (annotated, results)) :
    annotated.imports = prog.imports ∧
      KeepsDefinitions prog.definitions annotated.definitions := by
  simp only [inferProgram, bind_eq_ok, pure_eq_ok, Prod.exists, Prod.mk.injEq] at inferred
  obtain ⟨defns, returns, inferredRounds, rfl, rfl⟩ := inferred
  exact ⟨rfl, keeps_inferRounds inferredRounds⟩

/-- Inference keeps the imports and the definitions of a program, and counts the results of
its functions. -/
theorem keeps_inferProgram {annotated : Program}
    (regular : ∀ defn ∈ prog.definitions, defn.Regular shapes)
    (nodup : (prog.definitions.map Definition.name).Nodup)
    (isNew : ∀ defn ∈ prog.definitions, imported.get? defn.name = none)
    (inferred : inferProgram imported prog = .ok (annotated, results)) :
    annotated.imports = prog.imports ∧
      KeepsDefinitions prog.definitions annotated.definitions ∧
      Counted (ResultCount prog.definitions) results := by
  obtain ⟨sameImports, keeps⟩ := bare_inferProgram inferred
  refine ⟨sameImports, keeps, fun name types known => ?_⟩
  simp only [inferProgram, bind_eq_ok, pure_eq_ok, Prod.exists, Prod.mk.injEq] at inferred
  obtain ⟨defns, returns, inferredRounds, rfl, rfl⟩ := inferred
  have countable : ∀ defn ∈ prog.definitions,
      Countable shapes (ResultCount prog.definitions) defn := fun defn mem =>
    ⟨regular defn mem, resultCount_of_nodup nodup mem⟩
  have counted := counted_inferRounds countable (counted_initialReturns nodup isNew) inferredRounds
  have mem := List.mem_eraseDups.mp (Table.mem_of_get? known)
  obtain ⟨defn, -, found⟩ := List.mem_filterMap.mp mem
  obtain ⟨found, returned, same⟩ := Option.map_eq_some_iff.mp found
  cases same
  exact counted _ _ returned

theorem Counted.keeps {annotated : List Definition} (counted : Counted (ResultCount defns) returns)
    (keeps : KeepsDefinitions defns annotated) : Counted (ResultCount annotated) returns := by
  intro name types known defn mem sameName
  obtain ⟨orig, originalMember, keepsOne⟩ := keeps.exists_original mem
  rw [keepsOne.returned_length]
  exact counted name types known orig originalMember (keepsOne.name.symm.trans sameName)

end Programs

end Inference

end StoneBoard
