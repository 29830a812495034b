import Mathlib.Logic.Function.Basic
import StoneBoard.Proofs.Pairing
import StoneBoard.Proofs.RoutineCode

/-!
# Code with later numbers

A definition may be compiled when more or fewer numbers have been taken before it.  Its code is
the same up to the numbers of labels and hidden variables, which are all later by as much.
-/

namespace StoneBoard

open List

namespace Compilation

namespace Counters

def ahead (lead counters : Counters) : Counters :=
  ⟨lead.label + counters.label, lead.hidden + counters.hidden⟩

/-- The name of a variable in code with a lead: hidden variables have later numbers. -/
noncomputable def rename (lead : Counters) : String → String :=
  Function.extend (fun number => (Counters.mk 0 number).hiddenName)
    (fun number => (Counters.mk 0 (lead.hidden + number)).hiddenName) id

variable (lead : Counters)

@[simp]
theorem rename_hiddenName (own : Counters) :
    lead.rename own.hiddenName = (lead.ahead own).hiddenName := by
  have injective : Function.Injective fun number => (Counters.mk 0 number).hiddenName :=
    fun _ _ same => hidden_eq_of_hiddenName_eq same
  exact injective.extend_apply _ _ own.hidden

theorem rename_of_ne {name : String} (visible : ∀ own : Counters, own.hiddenName ≠ name) :
    lead.rename name = name := by
  refine Function.extend_apply' _ _ _ ?_
  rintro ⟨number, same⟩
  exact visible ⟨0, number⟩ same

theorem rename_of_isIdentifier {name : String} (named : IsIdentifier name) :
    lead.rename name = name :=
  lead.rename_of_ne (hiddenName_ne named)

theorem rename_injective : Function.Injective lead.rename := by
  intro first second same
  by_cases hidden : ∃ own : Counters, own.hiddenName = first
  · obtain ⟨own, rfl⟩ := hidden
    by_cases hiddenToo : ∃ own : Counters, own.hiddenName = second
    · obtain ⟨other, rfl⟩ := hiddenToo
      rw [rename_hiddenName, rename_hiddenName] at same
      have sameNumber : lead.hidden + own.hidden = lead.hidden + other.hidden :=
        hidden_eq_of_hiddenName_eq same
      rw [hiddenName, hiddenName, Nat.add_left_cancel sameNumber]
    · rw [rename_hiddenName, rename_of_ne lead (not_exists.mp hiddenToo)] at same
      exact absurd ⟨_, same⟩ hiddenToo
  · rw [rename_of_ne lead (not_exists.mp hidden)] at same
    by_cases hiddenToo : ∃ own : Counters, own.hiddenName = second
    · obtain ⟨other, rfl⟩ := hiddenToo
      rw [rename_hiddenName] at same
      exact absurd ⟨_, same.symm⟩ hidden
    · rwa [rename_of_ne lead (not_exists.mp hiddenToo)] at same

noncomputable def renumber (lines : List Line) : List Line :=
  lines.map fun line => (line.1.renamed (lead.label + ·) lead.rename, line.2)

@[simp]
theorem label_ahead (counters : Counters) :
    (lead.ahead counters).label = lead.label + counters.label := rfl

@[simp]
theorem takeLabels_ahead (counters : Counters) (count : Nat) :
    (lead.ahead counters).takeLabels count = lead.ahead (counters.takeLabels count) :=
  congrArg (Counters.mk · _) (Nat.add_assoc _ _ _)

@[simp]
theorem takeHidden_ahead (counters : Counters) :
    (lead.ahead counters).takeHidden = lead.ahead counters.takeHidden := rfl

@[simp]
theorem renumber_nil : lead.renumber [] = [] := rfl

@[simp]
theorem renumber_cons (line : Line) (rest : List Line) : lead.renumber (line :: rest) =
    (line.1.renamed (lead.label + ·) lead.rename, line.2) :: lead.renumber rest := rfl

@[simp]
theorem renumber_append (first second : List Line) :
    lead.renumber (first ++ second) = lead.renumber first ++ lead.renumber second :=
  map_append

end Counters

variable (lead : Counters)

/-! ## Expressions -/

mutual

theorem compileExpr_ahead (label : Nat) (expr : Expr) (named : expr.Named) :
    compileExpr (lead.label + label) expr =
      (lead.renumber (compileExpr label expr).1, lead.label + (compileExpr label expr).2) := by
  match expr with
  | .literal _ _ => rfl
  | .variableRef name span =>
    simp [compileExpr, Instruction.renamed, lead.rename_of_isIdentifier named]
  | .call name args span types =>
    simp [compileExpr, compileExprs_ahead label args named, Instruction.renamed]
  | .binary op left right span =>
    simp [compileExpr, compileExpr_ahead _ left named.1, compileExpr_ahead _ right named.2,
      Instruction.renamed]
  | .not operand _ | .negate operand _ _ =>
    simp [compileExpr, compileExpr_ahead label operand named, Instruction.renamed]
  | .logical .and left right span | .logical .or left right span =>
    simp [compileExpr, Nat.add_assoc, compileExpr_ahead _ left named.1,
      compileExpr_ahead _ right named.2, Instruction.renamed]

theorem compileExprs_ahead (label : Nat) (exprs : List Expr) (named : Expr.NamedAll exprs) :
    compileExprs (lead.label + label) exprs =
      (lead.renumber (compileExprs label exprs).1, lead.label + (compileExprs label exprs).2) := by
  match exprs with
  | [] => rfl
  | first :: rest =>
    simp [compileExprs, compileExpr_ahead _ first named.1, compileExprs_ahead _ rest named.2]

end

/-! ## Commands -/

theorem compileValue_ahead (counters : Counters) {value : Expr} (named : value.Named) :
    compileValue (lead.ahead counters) value = (lead.renumber (compileValue counters value).1,
        lead.ahead (compileValue counters value).2) := by
  simp [compileValue, Counters.ahead, compileExpr_ahead lead counters.label value named]

mutual

theorem compileStmt_ahead {counters after : Counters} (stmt : Stmt) (named : stmt.Named)
    {code : List Line} (compiled : compileStmt counters stmt = .ok (code, after)) :
    compileStmt (lead.ahead counters) stmt = .ok (lead.renumber code, lead.ahead after) := by
  match stmt with
  | .skip _ | .boom _ _ =>
    cases compiled
    rfl
  | .procedureCall _ args _ =>
    cases compiled
    simp [compileStmt, compileValues, compileExprs_ahead lead counters.label args named,
      Instruction.renamed, Counters.ahead]
  | .assign name value span =>
    cases compiled
    simp [compileStmt, compileValue, compileExpr_ahead lead counters.label value named.2,
      Instruction.renamed, lead.rename_of_isIdentifier named.1, Counters.ahead]
  | .tupleAssign names value span =>
    cases compiled
    have targets : lead.renumber (names.reverse.map fun name => (.assign name, span)) =
        names.reverse.map fun name => (.assign name, span) := by
      rw [Counters.renumber, map_map]
      refine map_congr_left fun name mem => ?_
      simp [Instruction.renamed,
        lead.rename_of_isIdentifier (named.1 name (List.mem_reverse.mp mem))]
    rw [Counters.renumber_append, targets, compileStmt, compileValue_ahead lead counters named.2]
    rfl
  | .ifElse cond thenBranch none span =>
    simp only [compileStmt, bind_eq_ok, pure_eq_ok, Prod.mk.injEq, Prod.exists] at compiled ⊢
    obtain ⟨thenCode, _, compiledThen, rfl, rfl⟩ := compiled
    simp [compileValue_ahead lead _ named.1, compileBlock_ahead thenBranch named.2.1 compiledThen,
      Instruction.renamed]
  | .ifElse cond thenBranch (some elseBranch) span =>
    simp only [compileStmt, bind_eq_ok, pure_eq_ok, Prod.mk.injEq, Prod.exists] at compiled ⊢
    obtain ⟨thenCode, between, compiledThen, elseCode, _, compiledElse, rfl, rfl⟩ := compiled
    simp [compileValue_ahead lead _ named.1, compileBlock_ahead thenBranch named.2.1 compiledThen,
      compileBlock_ahead elseBranch named.2.2 compiledElse, Instruction.renamed]
  | .whileLoop cond body span =>
    simp only [compileStmt, bind_eq_ok, pure_eq_ok, Prod.mk.injEq, Prod.exists] at compiled ⊢
    obtain ⟨bodyCode, _, compiledBody, rfl, rfl⟩ := compiled
    simp [compileValue_ahead lead _ named.1, compileBlock_ahead body named.2 compiledBody,
      Instruction.renamed, Nat.add_assoc]
  | .repeatWith index lower upper body span type =>
    simp only [compileStmt, bind_eq_ok, pure_eq_ok, Prod.mk.injEq, Prod.exists] at compiled ⊢
    obtain ⟨bodyCode, _, compiledBody, rfl, rfl⟩ := compiled
    obtain ⟨isName, lowerNamed, upperNamed, bodyNamed⟩ := named
    simp [compileValue_ahead lead _ lowerNamed, compileValue_ahead lead _ upperNamed,
      compileBlock_ahead body bodyNamed compiledBody, loopTest, loopAdvance, Instruction.renamed,
      lead.rename_of_isIdentifier isName, Nat.add_assoc]
  | .caseOf scrutinee branches fallback span =>
    simp only [compileStmt, bind_eq_ok, pure_eq_ok, Prod.mk.injEq, Prod.exists] at compiled ⊢
    obtain ⟨branchCode, between, compiledBranches, fallbackCode, _, compiledFallback, rfl, rfl⟩ :=
      compiled
    simp [compileValue_ahead lead _ named.1,
      compileBranches_ahead _ branches named.2.1 compiledBranches,
      compileOptional_ahead fallback named.2.2 compiledFallback, Instruction.renamed]
  | .block body span =>
    rw [compileStmt] at compiled ⊢
    exact compileBlock_ahead body named compiled
  | .returns _ _ _ => cases compiled

theorem compileBlock_ahead {counters after : Counters} (body : List Stmt)
    (named : Stmt.NamedAll body) {code : List Line}
    (compiled : compileBlock counters body = .ok (code, after)) :
    compileBlock (lead.ahead counters) body = .ok (lead.renumber code, lead.ahead after) := by
  match body with
  | [] =>
    cases compiled
    rfl
  | first :: rest =>
    simp only [compileBlock, bind_eq_ok, pure_eq_ok, Prod.mk.injEq, Prod.exists] at compiled ⊢
    obtain ⟨firstCode, between, compiledFirst, restCode, _, compiledRest, rfl, rfl⟩ := compiled
    exact ⟨_, _, compileStmt_ahead first named.1 compiledFirst, _, _,
      compileBlock_ahead rest named.2 compiledRest, (lead.renumber_append _ _).symm, rfl⟩

theorem compileOptional_ahead {counters after : Counters} (body : Option (List Stmt))
    (named : Stmt.NamedOptional body) {code : List Line}
    (compiled : compileOptional counters body = .ok (code, after)) :
    compileOptional (lead.ahead counters) body = .ok (lead.renumber code, lead.ahead after) := by
  match body with
  | none =>
    cases compiled
    rfl
  | some body =>
    rw [compileOptional] at compiled ⊢
    exact compileBlock_ahead body named compiled

theorem compileBranches_ahead {counters after : Counters} (own : Counters)
    (branches : List Branch) (named : Stmt.NamedBranches branches) {done : Nat} {code : List Line}
    (compiled : compileBranches own.hiddenName done counters branches = .ok (code, after)) :
    compileBranches (lead.ahead own).hiddenName (lead.label + done) (lead.ahead counters) branches =
      .ok (lead.renumber code, lead.ahead after) := by
  match branches with
  | [] =>
    cases compiled
    rfl
  | .on literals body span :: rest =>
    simp only [compileBranches, bind_eq_ok, pure_eq_ok, Prod.mk.injEq, Prod.exists] at compiled ⊢
    obtain ⟨bodyCode, between, compiledBody, restCode, _, compiledRest, rfl, rfl⟩ := compiled
    simp [compileBlock_ahead body named.1 compiledBody,
      compileBranches_ahead own rest named.2 compiledRest, Instruction.renamed]

end

/-! ## Routines -/

theorem compileReturn_ahead {counters after : Counters} {defn : Definition}
    {shapes : String → Option Shape} (regular : defn.Regular shapes)
    (named : defn.Named) {code : List Line}
    (compiled : compileReturn counters defn = .ok (code, after)) :
    compileReturn (lead.ahead counters) defn = .ok (lead.renumber code, lead.ahead after) := by
  have leave (span : Span) : lead.renumber
      (if defn.kind = .function then [(.leave, span)] else []) =
        if defn.kind = .function then [(.leave, span)] else [] := by
    split <;> rfl
  unfold compileReturn at compiled ⊢
  rcases defn.finalReturn?_cases with ⟨span, types, returns⟩ | ⟨silent, -⟩
  · simp only [returns] at compiled ⊢
    split at compiled
    next isMain =>
      obtain ⟨names, succeeds, sameNames, -⟩ := outputNames_succeeds defn.returned
        (types.getD []) (regular.main isMain)
      rw [succeeds] at compiled ⊢
      cases compiled
      have pushes : lead.renumber (names.map fun entry => (.pushVariable entry.1, span)) =
          names.map fun entry => (.pushVariable entry.1, span) := by
        rw [Counters.renumber, map_map]
        refine map_congr_left fun entry mem => ?_
        have isName := named.returned.isIdentifier (sameNames ▸ mem_map_of_mem mem)
        simp [Instruction.renamed, lead.rename_of_isIdentifier isName]
      rw [Counters.renumber_append, pushes, if_pos isMain]
      rfl
    next notMain =>
      cases compiled
      simp [notMain, compileValues, compileExprs_ahead lead counters.label _ named.returned, leave,
        Instruction.renamed, Counters.ahead]
  · simp only [silent] at compiled ⊢
    split at compiled <;> cases compiled
    · simp [*, Instruction.renamed]
    · simp [*, Instruction.renamed]

end Compilation

structure Routine.IsCodeOf (definition : Definition) (lines : List Line)
    (lead : Compilation.Counters) (routine : Routine) : Prop where
  name : routine.name = definition.name
  kind : routine.kind = definition.kind
  parameters : routine.parameters = definition.parameters
  code : routine.code.toList = lead.renumber lines
  placed : routine.Placed

/-- All compiled forms of a definition have the same code, up to its numbers, and this code places
all labels that it jumps to. -/
theorem Definition.CompilesTo.template {defn : Definition} {shapes : String → Option Shape}
    (regular : defn.Regular shapes) (named : defn.Named) :
    ∃ lines, (∀ label ∈ jumpTargets lines, ∃ (offset : Nat) (span : Span),
        lines[offset]? = some (.label label, span)) ∧
      ∀ routine, defn.CompilesTo routine →
        ∃ lead, routine.IsCodeOf defn lines lead := by
  obtain ⟨⟨body, between⟩, compiled⟩ := Compilation.compiles_block .start _ regular.body
  obtain ⟨⟨ending, after⟩, compiledEnding⟩ := Compilation.compiles_return between regular
  have resolvable := (Compilation.numbered_definition compiled compiledEnding).resolvable
  refine ⟨_, fun label isTarget => exists_of_placings (resolvable.2 label isTarget),
    fun routine compiles => ?_⟩
  obtain ⟨lead, last, compiles⟩ := compiles
  have leads : lead.ahead .start = lead := rfl
  have bodyAhead := Compilation.compileBlock_ahead lead _ named.body compiled
  have endingAhead := Compilation.compileReturn_ahead lead regular named compiledEnding
  simp only [Compilation.compileDefinition, bind_eq_ok, pure_eq_ok, Prod.exists,
    Prod.mk.injEq] at compiles
  rw [← leads, bodyAhead] at compiles
  obtain ⟨_, _, same, compiles⟩ := compiles
  cases same
  rw [endingAhead] at compiles
  obtain ⟨_, _, same, _, assembled, rfl, -⟩ := compiles
  cases same
  obtain ⟨name, kind, params, -, placed⟩ := Routine.assemble_eq_ok assembled
  refine ⟨lead, name, kind, params, ?_, placed⟩
  rw [Routine.code_of_assemble assembled, lead.renumber_append, lead.renumber_append]
  congr 2
  split <;> rfl

end StoneBoard
