import StoneBoard.Proofs.Nesting

/-!
# Programs with more imports

A program that passes the analysis still passes it if more names are imported, as long as it has
no other use for these names: all that it calls is what it was, so the checks find nothing new and
every slot for a type is filled with the same type.
-/

namespace StoneBoard

open List

variable {name : String}

/-! ## Types -/

namespace Inference

variable {defns annotated : List Definition} {after : Returns}

def Agree (shapes : String → Option Shape) (returns other : Returns) : Prop :=
  ∀ name, (shapes name).isSome → returns.get? name = other.get? name

variable {shapes : String → Option Shape} {returns other : Returns}

theorem Agree.insert (agree : Agree shapes returns other) (name : String) (types : List Ty) :
    Agree shapes (returns.insert name types) (other.insert name types) := by
  intro called known
  rw [Table.get?_insert, Table.get?_insert, agree called known]

section Agree

set_option linter.unusedSectionVars false

variable (agree : Agree shapes returns other)
include agree

mutual

theorem inferExpr_agree (locals : Variables) (expr : Expr) (regular : expr.Regular shapes) :
    inferExpr returns locals expr = inferExpr other locals expr := by
  match expr with
  | .literal _ _ | .variableRef _ _ => rfl
  | .call name args span _ =>
    have known : (shapes name).isSome := by simp [regular.1]
    rw [inferExpr, inferExpr, inferExprs_agree locals args regular.2, agree name known]
  | .binary _ left right _ | .logical _ left right _ =>
    rw [inferExpr, inferExpr, inferExpr_agree locals left regular.1,
      inferExpr_agree locals right regular.2]
  | .not operand _ | .negate operand _ _ =>
    rw [inferExpr, inferExpr, inferExpr_agree locals operand regular]

theorem inferExprs_agree (locals : Variables) (exprs : List Expr)
    (regular : Expr.RegularAll shapes exprs) :
    inferExprs returns locals exprs = inferExprs other locals exprs := by
  match exprs with
  | [] => rfl
  | first :: rest =>
    rw [inferExprs, inferExprs, inferExpr_agree locals first regular.1,
      inferExprs_agree locals rest regular.2]

end

theorem inferCondition_agree (locals : Variables) {cond : Expr} (regular : cond.Regular shapes) :
    inferCondition returns locals cond = inferCondition other locals cond := by
  rw [inferCondition, inferCondition, inferExpr_agree agree locals cond regular]

theorem inferTuple_agree (locals : Variables) {count : Nat} {value : Expr}
    (regular : value.RegularTuple shapes count) :
    inferTuple returns locals value = inferTuple other locals value := by
  cases value with
  | call name args span _ =>
    have known : (shapes name).isSome := by simp [regular.1]
    rw [inferTuple, inferTuple, inferExprs_agree agree locals args regular.2, agree name known]
  | _ => exact regular.elim

mutual

theorem inferStmt_agree (facts : Facts) (stmt : Stmt) (regular : stmt.Regular shapes) :
    inferStmt returns facts stmt = inferStmt other facts stmt := by
  match stmt with
  | .skip _ | .boom _ _ => rfl
  | .procedureCall name args span =>
    rw [inferStmt, inferStmt, inferExprs_agree agree facts.locals args regular.2]
  | .assign name value span =>
    rw [inferStmt, inferStmt, inferExpr_agree agree facts.locals value regular]
  | .tupleAssign names value span =>
    rw [inferStmt, inferStmt, inferTuple_agree agree facts.locals regular.2]
  | .ifElse cond thenBranch elseBranch _ =>
    simp only [inferStmt, inferCondition_agree agree _ regular.1,
      inferBlock_agree _ thenBranch regular.2.1, inferOptional_agree _ elseBranch regular.2.2]
  | .whileLoop cond body _ =>
    rw [inferStmt, inferStmt, inferCondition_agree agree facts.locals regular.1,
      inferBlock_agree facts body regular.2]
  | .repeatWith index lower upper body span _ =>
    simp only [inferStmt, inferExpr_agree agree _ lower regular.1,
      inferExpr_agree agree _ upper regular.2.1, inferBlock_agree _ body regular.2.2]
  | .caseOf scrutinee branches fallback _ =>
    simp only [inferStmt, inferExpr_agree agree _ scrutinee regular.1,
      inferBranches_agree _ _ branches regular.2.1, inferOptional_agree _ fallback regular.2.2]
  | .block body _ => rw [inferStmt, inferStmt, inferBlock_agree facts body regular]

theorem inferBlock_agree (facts : Facts) (body : List Stmt)
    (regular : Stmt.RegularAll shapes body) :
    inferBlock returns facts body = inferBlock other facts body := by
  match body with
  | [] => rfl
  | first :: rest =>
    simp only [inferBlock, inferStmt_agree _ first regular.1, inferBlock_agree _ rest regular.2]

theorem inferOptional_agree (facts : Facts) (body : Option (List Stmt))
    (regular : Stmt.RegularOptional shapes body) :
    inferOptional returns facts body = inferOptional other facts body := by
  match body with
  | none => rfl
  | some body => rw [inferOptional, inferOptional, inferBlock_agree facts body regular]

theorem inferBranches_agree (ty : Ty) (facts : Facts) (branches : List Branch)
    (regular : Stmt.RegularBranches shapes branches) :
    inferBranches returns ty facts branches = inferBranches other ty facts branches := by
  match branches with
  | [] => rfl
  | .on literals body span :: rest =>
    simp only [inferBranches, inferBlock_agree _ body regular.1,
      inferBranches_agree _ _ rest regular.2]

end

theorem inferDefinition_agree {defn : Definition} (regular : defn.Regular shapes) :
    inferDefinition returns defn = inferDefinition other defn := by
  -- a final return is not regular as a command, but its values are
  have sameStmt (stmt : Stmt) (mem : stmt ∈ defn.body) (facts : Facts) :
      inferStmt returns facts stmt = inferStmt other facts stmt := by
    rcases defn.mem_bodyBeforeReturn mem with early | isLast
    · exact inferStmt_agree agree facts stmt ((Stmt.regularAll_iff _ _).mp regular.body stmt early)
    · rcases defn.finalReturn?_cases with ⟨span, types, isReturn⟩ | ⟨silent, -⟩
      · cases isReturn.symm.trans isLast
        rw [inferStmt, inferStmt, inferExprs_agree agree facts.locals _ regular.values]
      · cases silent.symm.trans isLast
  have sameBody (facts : Facts) :
      inferBlock returns facts defn.body = inferBlock other facts defn.body := by
    generalize defn.body = body at sameStmt
    induction body generalizing facts with
    | nil => rfl
    | cons first rest ih =>
      obtain ⟨sameFirst, sameRest⟩ := List.forall_mem_cons.mp sameStmt
      simp only [inferBlock, sameFirst, ih _ sameRest]
  rw [inferDefinition, inferDefinition, sameBody]

end Agree

structure Known (shapes : String → Option Shape) (definition : Definition) : Prop where
  regular : definition.Regular shapes
  named : (shapes definition.name).isSome

theorem Known.keeps {orig annotated : Definition} (known : Known shapes orig)
    (keeps : KeepsDefinition orig annotated) : Known shapes annotated :=
  ⟨keeps.regular shapes known.regular, keeps.name ▸ known.named⟩

theorem Agree.updated (agree : Agree shapes returns other) (name : String)
    (result : Option (List Ty)) :
    Agree shapes (updated returns name result) (updated other name result) := by
  intro called known
  rw [get?_updated, get?_updated, agree called known]
  split
  next same => rw [← same, agree called known]
  next => rfl

theorem inferRound_agree (agree : Agree shapes returns other)
    (known : ∀ defn ∈ defns, Known shapes defn) {changed : Bool}
    (inferred : inferRound returns defns = .ok (annotated, after, changed)) :
    ∃ otherAfter, inferRound other defns = .ok (annotated, otherAfter, changed) ∧
      Agree shapes after otherAfter := by
  induction defns generalizing returns other annotated changed with
  | nil =>
    cases inferred
    exact ⟨other, rfl, agree⟩
  | cons first rest ih =>
    obtain ⟨firstKnown, restKnown⟩ := List.forall_mem_cons.mp known
    simp only [inferRound, bind_eq_ok, pure_eq_ok, Prod.exists, Prod.mk.injEq] at inferred ⊢
    obtain ⟨newFirst, result, inferredFirst, newRest, _, _, inferredRest, rfl, rfl, rfl⟩ := inferred
    have named := (firstKnown.keeps (keeps_inferDefinition inferredFirst)).named
    obtain ⟨otherAfter, inferredOther, agreeAfter⟩ :=
      ih (agree.updated newFirst.name result) restKnown inferredRest
    rw [inferDefinition_agree agree firstKnown.regular] at inferredFirst
    refine ⟨otherAfter, ⟨newFirst, result, inferredFirst, newRest, otherAfter, _, inferredOther,
      rfl, rfl, ?_⟩, agreeAfter⟩
    rw [agree newFirst.name named]

theorem inferRounds_agree (agree : Agree shapes returns other)
    (known : ∀ defn ∈ defns, Known shapes defn) {rounds : Nat}
    (inferred : inferRounds returns defns rounds = .ok (annotated, after)) :
    ∃ otherAfter, inferRounds other defns rounds = .ok (annotated, otherAfter) ∧
      Agree shapes after otherAfter := by
  induction rounds generalizing returns other defns with
  | zero =>
    cases inferred
    exact ⟨other, rfl, agree⟩
  | succ rounds ih =>
    simp only [inferRounds, bind_eq_ok, Prod.exists] at inferred ⊢
    obtain ⟨middle, between, changed, inferredRound, inferred⟩ := inferred
    obtain ⟨otherBetween, otherRound, agreeBetween⟩ := inferRound_agree agree known inferredRound
    have middleKnown : ∀ defn ∈ middle, Known shapes defn := by
      intro defn mem
      obtain ⟨orig, isOriginal, keeps⟩ := (keeps_inferRound inferredRound).exists_original mem
      exact (known orig isOriginal).keeps keeps
    cases changed with
    | true =>
      obtain ⟨otherAfter, otherRounds, agreeAfter⟩ := ih agreeBetween middleKnown inferred
      exact ⟨otherAfter, ⟨middle, otherBetween, true, otherRound, otherRounds⟩, agreeAfter⟩
    | false =>
      cases inferred
      exact ⟨otherBetween, ⟨annotated, otherBetween, false, otherRound, rfl⟩, agreeBetween⟩

/-- Imported functions that have no shape add nothing to what is known of the others. -/
theorem agree_initialReturns {imported extra : Interface}
    (spare : ∀ name, (shapes name).isSome → extra.get? name = none) (defns : List Definition) :
    Agree shapes (initialReturns imported defns) (initialReturns (imported ++ extra) defns) := by
  have start : Agree shapes
      ((imported.filter fun entry => entry.2.kind == .function).map
        fun entry => (entry.1, entry.2.returns))
      (((imported ++ extra).filter fun entry => entry.2.kind == .function).map
        fun entry => (entry.1, entry.2.returns)) := by
    intro name known
    have noResult : Table.get? ((extra.filter fun entry => entry.2.kind == .function).map
        fun entry => (entry.1, entry.2.returns)) name = none := by
      rw [Table.get?_eq_none_iff]
      intro listed
      obtain ⟨_, isResult, rfl⟩ := List.mem_map.mp listed
      obtain ⟨entry, isFunction, rfl⟩ := List.mem_map.mp isResult
      exact Table.get?_eq_none_iff.mp (spare _ known)
        (mem_map_of_mem (mem_of_mem_filter isFunction))
    rw [filter_append, map_append, Table.get?_append, noResult, Option.or_none]
  unfold initialReturns
  dsimp only
  generalize (imported.filter _).map _ = first, ((imported ++ extra).filter _).map _ = second
    at start ⊢
  induction defns generalizing first second with
  | nil => exact start
  | cons defn rest ih =>
    rw [foldl_cons, foldl_cons]
    apply ih
    split
    · exact start.insert _ _
    · exact start

end Inference

/-! ## Programs -/

/-- An interface of names that a program neither defines nor imports, and that are not builtin. -/
structure Interface.Spare (extra imported : Interface) (program : Program) : Prop where
  imported : ∀ name, (imported.get? name).isSome → extra.get? name = none
  defined : ∀ definition ∈ program.definitions, extra.get? definition.name = none
  builtin : ∀ name, Builtin.isDefined name = true → extra.get? name = none

namespace Interface.Spare

variable {extra imported locals : Interface} {prog : Program}
variable {entry : Bool}
variable {annotated : Program}

theorem within (spare : extra.Spare imported prog) (locals : Interface) :
    Check.Environment.Within ⟨locals, imported⟩ ⟨locals, imported ++ extra⟩ := by
  intro name shape isShape
  obtain ⟨info, known, rfl⟩ := Option.map_eq_some_iff.mp isShape
  refine Option.map_eq_some_iff.mpr ⟨info, ?_, rfl⟩
  simp only [Check.Environment.lookup?, Table.get?_append] at known ⊢
  cases isBuiltin : Builtin.ofName? name with
  | none =>
    rw [isBuiltin, Option.map_none, Option.or_none] at known
    rw [Option.or_assoc, ← Option.or_assoc, known, Option.some_or]
  | some builtin =>
    have absent := spare.builtin name (by rw [Builtin.isDefined, isBuiltin]; rfl)
    rw [absent, Option.or_none, ← isBuiltin]
    exact known

/-- No name that the program calls is among the additional ones. -/
theorem absent (spare : extra.Spare imported prog)
    (isLocal : ∀ name, locals.get? name = (prog.definition? name).map Definition.info)
    (known : (Check.Environment.lookup? ⟨locals, imported⟩ name).isSome) :
    extra.get? name = none := by
  simp only [Check.Environment.lookup?, Option.isSome_or, Option.isSome_map, isLocal,
    Bool.or_eq_true] at known
  rcases known with isDefined | isImported | isBuiltin
  · obtain ⟨defn, found⟩ := Option.isSome_iff_exists.mp isDefined
    have named : defn.name = name := by simpa using find?_some found
    exact named ▸ spare.defined defn (mem_of_find?_eq_some found)
  · exact spare.imported name isImported
  · exact spare.builtin name isBuiltin

theorem checkDefinitions (spare : extra.Spare imported prog)
    (checked : Check.checkDefinitions entry imported prog = .ok ()) (imports : List Import) :
    Check.checkDefinitions entry (imported ++ extra) { prog with imports } = .ok () := by
  refine Check.checkDefinitions_within spare.within (fun defn mem => ?_) checked imports
  rw [Table.contains, Table.contains, Table.get?_append, spare.defined defn mem, Option.or_none]

theorem inferProgram (spare : extra.Spare imported prog)
    (checked : Check.checkDefinitions entry imported prog = .ok ()) {results : Inference.Returns}
    (inferred : Inference.inferProgram imported prog = .ok (annotated, results))
    (imports : List Import) : Inference.inferProgram (imported ++ extra) { prog with imports } =
      .ok ({ annotated with imports }, results) := by
  obtain ⟨-, -, -, locals, isLocal, definitionsChecked⟩ := Check.checkDefinitions_eq_ok checked
  -- the names that have a shape are those that the checks have found
  let env : Check.Environment := ⟨locals, imported⟩
  have absent (name : String) (known : (env.shape? name).isSome) : extra.get? name = none :=
    spare.absent isLocal (by rwa [Check.Environment.shape?, Option.isSome_map] at known)
  have known : ∀ defn ∈ prog.definitions,
      Inference.Known env.shape? defn := by
    intro defn mem
    refine ⟨Check.regular_of_checkDefinition (definitionsChecked defn mem), ?_⟩
    have isDefined : (prog.definition? defn.name).isSome :=
      List.find?_isSome.mpr ⟨defn, mem, beq_self_eq_true _⟩
    simp [env, Check.Environment.shape?, Check.Environment.lookup?, isLocal, isDefined]
  simp only [Inference.inferProgram, bind_eq_ok, pure_eq_ok, Prod.exists, Prod.mk.injEq]
    at inferred ⊢
  obtain ⟨defns, returns, inferredRounds, rfl, rfl⟩ := inferred
  obtain ⟨otherReturns, otherRounds, agree⟩ := Inference.inferRounds_agree
    (Inference.agree_initialReturns absent prog.definitions) known inferredRounds
  refine ⟨defns, otherReturns, otherRounds, rfl, ?_⟩
  congr 1
  refine filterMap_congr fun defn isFunction => ?_
  obtain ⟨orig, isOriginal, keeps⟩ :=
    (Inference.keeps_inferRounds inferredRounds).exists_original
      (mem_of_mem_filter isFunction)
  rw [agree _ ((known orig isOriginal).keeps keeps).named]

/-- What an analysis comes to is the same with more imports. -/
theorem conclude (spare : extra.Spare imported prog) {opts : Library.Settings} {iface : Interface}
    (concluded : Library.conclude opts entry imported prog = .ok (annotated, iface))
    (imports : List Import) :
    ∃ larger, Library.conclude opts entry (imported ++ extra) { prog with imports } =
      .ok ({ annotated with imports }, larger) := by
  obtain ⟨_, checked, concluded⟩ := bind_eq_ok.mp concluded
  have checkedAgain := spare.checkDefinitions checked imports
  unfold Library.conclude
  split at concluded
  next typed =>
    simp only [bind_eq_ok, pure_eq_ok, Prod.exists, Prod.mk.injEq] at concluded
    obtain ⟨_, results, inferred, rfl, -⟩ := concluded
    rw [checkedAgain, if_pos typed, spare.inferProgram checked inferred imports]
    exact ⟨_, rfl⟩
  next untyped =>
    cases concluded
    rw [checkedAgain, if_neg untyped]
    exact ⟨_, rfl⟩

end Interface.Spare

end StoneBoard
