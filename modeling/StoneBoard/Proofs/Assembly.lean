import Mathlib.Data.List.Flatten
import StoneBoard.Proofs.Lines

/-!
# Assembling

Regular commands have code, and whatever code the commands of a definition have can be assembled:
a label table exists exactly if no label is placed twice and every jump leads to a label.  The
labels of all routines of a module are different, and no jump leaves its routine.
-/

namespace StoneBoard

open List

namespace Compilation

variable {defn : Definition} {counters between after : Counters} {body ending : List Line}
  {shapes : String → Option Shape}

theorem exists_ok_bind {α β : Type} {first : Except Error α} {next : α → Except Error β}
    (succeeds : ∃ found, first = .ok found) (further : ∀ found, ∃ last, next found = .ok last) :
    ∃ last, (first >>= next) = .ok last := by
  obtain ⟨found, rfl⟩ := succeeds
  exact further found

mutual

theorem compiles_stmt (counters : Counters) : (stmt : Stmt) → stmt.Regular shapes →
    ∃ result, compileStmt counters stmt = .ok result
  | .skip _, _ | .boom _ _, _ | .procedureCall _ _ _, _ | .assign _ _ _, _
  | .tupleAssign _ _ _, _ => ⟨_, rfl⟩
  | .ifElse _ thenBranch none _, regular =>
    exists_ok_bind (compiles_block _ thenBranch regular.2.1) fun _ => ⟨_, rfl⟩
  | .ifElse _ thenBranch (some elseBranch) _, regular =>
    exists_ok_bind (compiles_block _ thenBranch regular.2.1) fun _ =>
      exists_ok_bind (compiles_block _ elseBranch regular.2.2) fun _ => ⟨_, rfl⟩
  | .whileLoop _ body _, regular =>
    exists_ok_bind (compiles_block _ body regular.2) fun _ => ⟨_, rfl⟩
  | .repeatWith _ _ _ body _ _, regular =>
    exists_ok_bind (compiles_block _ body regular.2.2) fun _ => ⟨_, rfl⟩
  | .caseOf _ branches fallback _, regular =>
    exists_ok_bind (compiles_branches _ _ _ branches regular.2.1) fun _ =>
      exists_ok_bind (compiles_optional _ fallback regular.2.2) fun _ => ⟨_, rfl⟩
  | .block body _, regular => compiles_block counters body regular
  | .returns _ _ _, regular => regular.elim

theorem compiles_block (counters : Counters) : (body : List Stmt) →
    Stmt.RegularAll shapes body → ∃ result, compileBlock counters body = .ok result
  | [], _ => ⟨_, rfl⟩
  | first :: rest, regular =>
    exists_ok_bind (compiles_stmt counters first regular.1) fun _ =>
      exists_ok_bind (compiles_block _ rest regular.2) fun _ => ⟨_, rfl⟩

theorem compiles_optional (counters : Counters) : (body : Option (List Stmt)) →
    Stmt.RegularOptional shapes body → ∃ result, compileOptional counters body = .ok result
  | none, _ => ⟨_, rfl⟩
  | some body, regular => compiles_block counters body regular

theorem compiles_branches (subject : String) (done : Nat) (counters : Counters) :
    (branches : List Branch) → Stmt.RegularBranches shapes branches →
    ∃ result, compileBranches subject done counters branches = .ok result
  | [], _ => ⟨_, rfl⟩
  | .on _ body _ :: rest, regular =>
    exists_ok_bind (compiles_block _ body regular.1) fun _ =>
      exists_ok_bind (compiles_branches subject done _ rest regular.2) fun _ => ⟨_, rfl⟩

end

/-- Variables have output names: their own ones, with a type if that is known. -/
theorem outputNames_succeeds (values : List Expr) (types : List Ty)
    (areVariables : ∀ value ∈ values, value.variableName?.isSome) :
    ∃ names, outputNames values types = .ok names ∧
      names.map Prod.fst = values.filterMap Expr.variableName? ∧
      ∀ entry ∈ names, entry.2 = entry.1 ∨ ∃ ty, entry.2 = variantName entry.1 [ty] := by
  induction values generalizing types with
  | nil => exact ⟨[], rfl, rfl, by simp⟩
  | cons value rest ih =>
    have isVariable := areVariables value mem_cons_self
    have others := fun other mem => areVariables other (mem_cons_of_mem _ mem)
    obtain ⟨names, succeeds, sameNames, known⟩ := ih types.tail others
    cases value with
    | variableRef name span =>
      cases typed : types.head?.bind Ty.basic? with
      | none =>
        refine ⟨(name, name) :: names, ?_, by simp [Expr.variableName?, sameNames], ?_⟩
        · simp only [outputNames, succeeds, typed]
          rfl
        · exact List.forall_mem_cons.mpr ⟨.inl rfl, known⟩
      | some ty =>
        refine ⟨(name, variantName name [ty]) :: names, ?_,
          by simp [Expr.variableName?, sameNames], ?_⟩
        · simp only [outputNames, succeeds, typed]
          rfl
        · exact List.forall_mem_cons.mpr ⟨.inr ⟨ty, rfl⟩, known⟩
    | literal | call | binary | not | negate | logical => cases isVariable

theorem compiles_return (counters : Counters) (regular : defn.Regular shapes) :
    ∃ result, compileReturn counters defn = .ok result := by
  rcases defn.finalReturn?_cases with ⟨span, types, returns⟩ | ⟨silent, -⟩
  · simp only [compileReturn, returns]
    split
    next isMain =>
      obtain ⟨names, succeeds, -⟩ := outputNames_succeeds defn.returned (types.getD [])
        (regular.main isMain)
      rw [succeeds]
      exact ⟨_, rfl⟩
    next => exact ⟨_, rfl⟩
  · simp only [compileReturn, silent]
    split <;> exact ⟨_, rfl⟩

/-! ## Routines -/

theorem numbered_definition
    (compiled : compileBlock counters (bodyBeforeReturn defn) = .ok (body, between))
    (compiledEnding : compileReturn between defn = .ok (ending, after)) :
    Numbered counters.label after.label []
      ((if defn.kind = .function then [(.enter, defn.span)] else []) ++ body ++ ending) := by
  obtain ⟨code, span, returns, rfl, isReturn, -, numbered, -⟩ := compileReturn_parts compiledEnding
  have enter : Numbered counters.label counters.label []
      (if defn.kind = .function then [(Instruction.enter, defn.span)] else []) :=
    .plain _ (by split <;> rfl)
  have leaves : Numbered after.label after.label []
      (if defn.kind = .function then [(Instruction.leave, span)] else []) :=
    .plain _ (by split <;> rfl)
  have last : Numbered after.label after.label [] [(returns, span)] :=
    .plain _ (by cases returns <;> first | rfl | cases isReturn)
  exact (enter.append (emits_block _ compiled).numbered).append
    ((numbered.append leaves).append last)

theorem assemble_definition
    (compiled : compileBlock counters (bodyBeforeReturn defn) = .ok (body, between))
    (compiledEnding : compileReturn between defn = .ok (ending, after)) :
    ∃ routine, compileDefinition counters defn = .ok (routine, after) := by
  have resolvable := (numbered_definition compiled compiledEnding).resolvable
  simp only [compileDefinition, bind_eq_ok, pure_eq_ok]
  obtain ⟨routine, assembled⟩ := Routine.assemble_of_resolvable resolvable defn.name
    defn.kind defn.parameters
  exact ⟨routine, _, compiled, _, compiledEnding, routine, assembled, rfl⟩

theorem compileDefinition_succeeds (counters : Counters) (regular : defn.Regular shapes) :
    ∃ routine after, compileDefinition counters defn = .ok (routine, after) := by
  obtain ⟨⟨body, between⟩, compiled⟩ := compiles_block counters _ regular.body
  obtain ⟨⟨ending, after⟩, compiledEnding⟩ := compiles_return between regular
  obtain ⟨routine, succeeds⟩ := assemble_definition compiled compiledEnding
  exact ⟨routine, after, succeeds⟩

/-- A compiled routine has its labels from a range of its own, and its table is complete. -/
theorem compileDefinition_numbered {routine : Routine}
    (compiled : compileDefinition counters defn = .ok (routine, after)) :
    Numbered counters.label after.label [] routine.code.toList ∧
      routine.resolveLabels = (routine, none) := by
  simp only [compileDefinition, bind_eq_ok, pure_eq_ok, Prod.exists, Prod.mk.injEq] at compiled
  obtain ⟨body, between, compiledBody, ending, _, compiledEnding, _, assembled, rfl, rfl⟩ :=
    compiled
  rw [Routine.code_of_assemble assembled]
  exact ⟨numbered_definition compiledBody compiledEnding,
    Routine.resolveLabels_of_assemble assembled⟩

/-! ## Modules -/

def codeOf (routines : Table Routine) : List Line :=
  routines.flatMap fun entry => entry.2.code.toList

theorem placings_erase_le (label : Nat) (routines : Table Routine) (name : String) :
    placings label (codeOf (routines.erase name)) ≤ placings label (codeOf routines) :=
  (List.filter_sublist.flatMap _).countP_le

theorem compileDefinitions_numbered {routines all : Table Routine} {defns : List Definition}
    (compiled : compileDefinitions counters routines defns = .ok all)
    (early : ∀ label, placings label (codeOf routines) ≤ if label < counters.label then 1 else 0)
    (resolved : ∀ entry ∈ routines, entry.2.resolveLabels = (entry.2, none)) :
    (∀ label, placings label (codeOf all) ≤ 1) ∧
      ∀ entry ∈ all, entry.2.resolveLabels = (entry.2, none) := by
  induction defns generalizing counters routines with
  | nil =>
    cases compiled
    refine ⟨fun label => Nat.le_trans (early label) ?_, resolved⟩
    split <;> omega
  | cons first rest ih =>
    simp only [compileDefinitions, bind_eq_ok, Prod.exists] at compiled
    obtain ⟨routine, after, compiledFirst, compiledRest⟩ := compiled
    obtain ⟨numbered, isResolved⟩ := compileDefinition_numbered compiledFirst
    refine ih compiledRest (fun label => ?_) (List.forall_mem_cons.mpr
      ⟨isResolved, fun entry mem => resolved entry (mem_of_mem_filter mem)⟩)
    have before := Nat.le_trans (placings_erase_le label routines first.name) (early label)
    have own := numbered.placed label
    have le := numbered.le
    rw [codeOf, Table.insert, flatMap_cons, placings_append, own]
    change _ + placings label (codeOf (routines.erase first.name)) ≤ _
    split_ifs at before ⊢ <;> omega

end Compilation

/-- Labels can be resolved exactly if none is placed twice and every jump leads to one; they lead
to the places behind them then.  The code of every definition can be assembled, the routines of a
module place different labels, and jumps stay in their routines. -/
theorem labels_resolve :
    (∀ routine : Routine,
      (routine.resolveLabels.2 = none ↔
        (∀ label, placings label routine.code.toList ≤ 1) ∧
        ∀ label ∈ jumpTargets routine.code.toList, 0 < placings label routine.code.toList) ∧
      (routine.resolveLabels.2 = none → routine.resolveLabels.1.Placed ∧
        ∀ label, placings label routine.code.toList = 0 →
          routine.resolveLabels.1.target? label = none)) ∧
    (∀ (definition : Definition) (counters between after : Compilation.Counters)
      (body ending : List Line),
      Compilation.compileBlock counters (Compilation.bodyBeforeReturn definition) =
        .ok (body, between) →
      Compilation.compileReturn between definition = .ok (ending, after) →
      ∃ routine, Compilation.compileDefinition counters definition = .ok (routine, after)) ∧
    ∀ (qualifier file : String) (links : Table (CompiledModule × Routine)) (program : Program)
      (compiled : CompiledModule),
      Compilation.compileModule qualifier file links program = .ok compiled →
      (∀ label, placings label
        (compiled.routines.flatMap fun entry => entry.2.code.toList) ≤ 1) ∧
      ∀ entry ∈ compiled.routines, entry.2.resolveLabels = (entry.2, none) ∧
        ∀ label ∈ jumpTargets entry.2.code.toList, 0 < placings label entry.2.code.toList := by
  refine ⟨Routine.resolveLabels_spec, fun _ _ _ _ _ _ => Compilation.assemble_definition, ?_⟩
  intro qualifier file links program compiled isCompiled
  simp only [Compilation.compileModule, bind_eq_ok, pure_eq_ok] at isCompiled
  obtain ⟨routines, compiledAll, rfl⟩ := isCompiled
  obtain ⟨once, resolved⟩ := Compilation.compileDefinitions_numbered compiledAll
    (fun _ => Nat.zero_le _) (List.forall_mem_nil _)
  refine ⟨once, fun entry member => ⟨resolved entry member, ?_⟩⟩
  exact ((Routine.resolveLabels_spec entry.2).1.mp (by rw [resolved entry member])).2

end StoneBoard
