import StoneBoard.Proofs.Layout
import StoneBoard.Proofs.Regular
import StoneBoard.Proofs.Session

/-!
# Names in programs and in compiled modules

A name in compiled code stands for the compiled form of what it stands for in the program,
and builtins are called by the name of the variant that the types select.
-/

namespace StoneBoard

open List

variable {callee : Builtin} {defn : Definition}

/-! ## Names of builtins -/

theorem BinaryOp.symbol_eq (op : BinaryOp) : op.symbol = op.operation.name := by
  cases op <;> rfl

theorem count_variantName (name : String) (types : List BasicTy) :
    (variantName name types).toList.count '@' = name.toList.count '@' + types.length := by
  unfold variantName
  induction types generalizing name with
  | nil => rfl
  | cons ty rest ih =>
    rw [foldl_cons, ih]
    cases ty <;> simp [BasicTy.name, Nat.add_right_comm, Nat.add_assoc]

namespace Builtin

variable {name : String}

theorem names_nodup : (table.map Prod.fst).Nodup := by decide

theorem ofName?_name {builtin : Builtin} (mem : builtin ∈ all) :
    ofName? builtin.name = some builtin :=
  Table.get?_of_mem names_nodup (mem_map_of_mem mem)

theorem operation_mem_all (op : Operation) : operation op ∈ all := by
  have mem : op ∈ Operation.all := by cases op <;> decide
  simp [all, mem]

theorem variant_mem_all {op : Operation} (poly : op.isPolymorphic = true)
    (ty : BasicTy) : variant op ty ∈ all := by
  have mem : op ∈ Operation.all := by cases op <;> decide
  have tyMember : ty ∈ BasicTy.all := by cases ty <;> decide
  have among : variant op ty ∈ variants op := by simp [variants, poly, tyMember]
  exact mem_append_right _ (List.mem_flatMap.mpr ⟨op, mem, among⟩)

theorem operation_of_isPolymorphicName (poly : isPolymorphicName name) :
    ∃ op : Operation, op.isPolymorphic = true ∧ name = op.name ∧
      ofName? name = some (.operation op) := by
  simp only [isPolymorphicName, any_eq_true, Bool.and_eq_true, beq_iff_eq] at poly
  obtain ⟨op, -, isPolymorphic, rfl⟩ := poly
  exact ⟨op, isPolymorphic, rfl, ofName?_name (operation_mem_all op)⟩

/-- There are variants for one type at a time only: the names of builtins have one at sign
at most. -/
theorem not_isDefined_variantName (name : String) (first second : BasicTy) (rest : List BasicTy) :
    isDefined (variantName name (first :: second :: rest)) = false := by
  rw [isDefined, Option.isSome_eq_false_iff, Option.isNone_iff_eq_none, ofName?, lookup_eq_none_iff]
  intro entry mem
  have few : ∀ entry ∈ table, entry.1.toList.count '@' ≤ 1 := by decide
  have many := count_variantName name (first :: second :: rest)
  have bound := few entry mem
  rw [bne_iff_ne]
  intro same
  rw [same] at many
  simp only [length_cons] at many
  omega

theorem forTypes_of_not_isPolymorphicName (known : ofName? name = some callee)
    (monomorphic : ¬ isPolymorphicName name = true) (types : Option (List BasicTy)) :
    callee.forTypes types = callee := by
  unfold forTypes
  split
  next op ty =>
    have sameName := (ofName?_eq_some known).2
    rw [if_neg]
    intro poly
    apply monomorphic
    rw [← sameName]
    simp only [isPolymorphicName, any_eq_true, Bool.and_eq_true, beq_iff_eq]
    exact ⟨op, by cases op <;> decide, poly, rfl⟩
  next => rfl

theorem ofName?_calleeName (name : String) (types : Option (List BasicTy)) :
    ofName? (Compilation.calleeName name types) =
      (ofName? name).map fun callee => callee.forTypes types := by
  have untouched (callee : Builtin) : callee.forTypes none = callee := by cases callee <;> rfl
  cases types with
  | none => simp [Compilation.calleeName, untouched]
  | some types =>
    by_cases poly : isPolymorphicName name
    · obtain ⟨op, isPolymorphic, rfl, known⟩ := operation_of_isPolymorphicName poly
      rw [known, Option.map_some, Compilation.calleeName]
      match types with
      | [] => simp [variantName, forTypes, known]
      | [ty] =>
        have variantKnown : ofName? (variantName op.name [ty]) = some (.variant op ty) :=
          ofName?_name (variant_mem_all isPolymorphic ty)
        simp [poly, isDefined, variantKnown, forTypes, isPolymorphic]
      | first :: second :: rest =>
        simp [not_isDefined_variantName, forTypes, known]
    · have sameName : Compilation.calleeName name (some types) = name := by
        simp [Compilation.calleeName, poly]
      rw [sameName]
      cases known : ofName? name with
      | none => rfl
      | some callee =>
        rw [Option.map_some, forTypes_of_not_isPolymorphicName known poly]

end Builtin

/-! ## Compiled modules -/

def Definition.CompilesTo (definition : Definition) (routine : Routine) : Prop :=
  ∃ counters after, Compilation.compileDefinition counters definition = .ok (routine, after)

theorem Definition.CompilesTo.parts {routine : Routine} (compiled : defn.CompilesTo routine) :
    ∃ counters between after body ending,
      Compilation.compileBlock counters (Compilation.bodyBeforeReturn defn) = .ok (body, between) ∧
      Compilation.compileReturn between defn = .ok (ending, after) ∧
      routine.HasCode 0 ((if defn.kind = .function then [(.enter, defn.span)] else [])
        ++ body ++ ending) ∧
      routine.name = defn.name ∧ routine.parameters = defn.parameters ∧
      routine.Placed := by
  obtain ⟨counters, after, compiled⟩ := compiled
  simp only [Compilation.compileDefinition, bind_eq_ok, pure_eq_ok, Prod.mk.injEq] at compiled
  obtain ⟨⟨body, between⟩, compiledBody, ⟨ending, final⟩, compiledEnding, assembled, isAssembled,
    rfl, rfl⟩ := compiled
  obtain ⟨sameName, -, sameParameters, placed, labelled⟩ := Routine.assemble_eq_ok isAssembled
  exact ⟨counters, between, final, body, ending, compiledBody, compiledEnding, placed, sameName,
    sameParameters, labelled⟩

/-- A relation between programs and compiled modules under which all names have the same
meaning. -/
structure Linking (related : Site → CompiledModule → Prop) : Prop where
  regular {site : Site} {home : CompiledModule} {name : String} {other : Site}
    {definition : Definition} : related site home →
    site.routine? name = some (other, definition) →
    definition.Regular other.shape? ∧ definition.Named
  found {site : Site} {home : CompiledModule} {name : String} {other : Site}
    {definition : Definition} : related site home →
    site.routine? name = some (other, definition) →
    ∃ otherHome routine, home.exported? name = some (otherHome, routine) ∧
      related other otherHome ∧ definition.CompilesTo routine
  absent {site : Site} {home : CompiledModule} {name : String} : related site home →
    site.routine? name = none → home.exported? name = none
  reserved {site : Site} {home : CompiledModule} {name : String} : related site home →
    Builtin.isDefined name = true → site.routine? name = none

/-- A compiled module in which all names mean what they mean in a program. -/
def Site.LinkedTo (site : Site) (home : CompiledModule) : Prop :=
  ∃ related, Linking related ∧ related site home

structure Realizes (site : Site) (definition : Definition) (home : CompiledModule)
    (routine : Routine) : Prop where
  linked : site.LinkedTo home
  regular : definition.Regular site.shape?
  named : definition.Named
  compiled : definition.CompilesTo routine

namespace Site.LinkedTo

variable {site : Site} {home : CompiledModule}
variable {name : String}

theorem found (linked : site.LinkedTo home) {other : Site}
    (known : site.routine? name = some (other, defn)) :
    ∃ otherHome routine, home.exported? name = some (otherHome, routine) ∧
      Realizes other defn otherHome routine := by
  obtain ⟨related, linking, here⟩ := linked
  obtain ⟨otherHome, routine, exported, there, compiled⟩ := linking.found here known
  obtain ⟨regular, named⟩ := linking.regular here known
  exact ⟨otherHome, routine, exported, ⟨related, linking, there⟩, regular, named, compiled⟩

theorem absent (linked : site.LinkedTo home) (unknown : site.routine? name = none) :
    home.exported? name = none := by
  obtain ⟨related, linking, here⟩ := linked
  exact linking.absent here unknown

theorem reserved (linked : site.LinkedTo home) (isBuiltin : Builtin.isDefined name = true) :
    site.routine? name = none := by
  obtain ⟨related, linking, here⟩ := linked
  exact linking.reserved here isBuiltin

theorem calleeName_eq (linked : site.LinkedTo home) {known : Site × Definition}
    (isKnown : site.routine? name = some known) (types : Option (List BasicTy)) :
    Compilation.calleeName name types = name := by
  have notBuiltin : Builtin.isPolymorphicName name = false := by
    rw [Bool.eq_false_iff]
    intro poly
    obtain ⟨op, -, -, isBuiltin⟩ := Builtin.operation_of_isPolymorphicName poly
    rw [linked.reserved (by rw [Builtin.isDefined, isBuiltin]; rfl)] at isKnown
    cases isKnown
  cases types <;> simp [Compilation.calleeName, notBuiltin]

theorem exported?_calleeName (linked : site.LinkedTo home)
    (isBuiltin : Builtin.ofName? name = some callee) (types : Option (List BasicTy)) :
    home.exported? (Compilation.calleeName name types) = none := by
  apply linked.absent
  apply linked.reserved
  rw [Builtin.isDefined, Builtin.ofName?_calleeName, isBuiltin]
  rfl

end Site.LinkedTo

end StoneBoard
