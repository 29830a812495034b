import Mathlib.Data.List.Forall2
import StoneBoard.Proofs.Assembly
import StoneBoard.Proofs.Bare
import StoneBoard.Proofs.Linkage

/-!
# Code with types

The types in the slots of a program show in its code in two ways only.  Where the type of an
argument is known, a polymorphic builtin is called by the name of its variant, and the main
procedure gives its results under names with types.  In all other respects a program and its
bare form have the same code.
-/

namespace StoneBoard

open List

variable {name : String}
variable {defn : Definition}

/-! ## Instructions -/

/-- An instruction that knows more about types than another one. -/
inductive Instruction.Specializes : Instruction → Instruction → Prop
  | refl (instruction : Instruction) : Specializes instruction instruction
  | variant {op : Operation} (polymorphic : op.isPolymorphic = true) (ty : BasicTy) :
      Specializes (.call (variantName op.name [ty]) 1) (.call op.name 1)
  | output {names others : List String} (count : Nat)
      (same : names.map plainName = others.map plainName) :
      Specializes (.returnNamed count names) (.returnNamed count others)

def Specialized : List Line → List Line → Prop :=
  List.Forall₂ fun typed bare => typed.1.Specializes bare.1 ∧ typed.2 = bare.2

namespace Specialized

theorem refl (lines : List Line) : Specialized lines lines :=
  List.forall₂_same.mpr fun line _ => ⟨.refl line.1, rfl⟩

theorem append {first second bareFirst bareSecond : List Line}
    (early : Specialized first bareFirst) (late : Specialized second bareSecond) :
    Specialized (first ++ second) (bareFirst ++ bareSecond) :=
  rel_append early late

theorem single {instr other : Instruction} (spec : instr.Specializes other)
    (span : Span) : Specialized [(instr, span)] [(other, span)] :=
  .cons ⟨spec, rfl⟩ .nil

end Specialized

namespace Compilation

variable {count : Nat} {value : Expr} {values : List Expr}

/-- All polymorphic builtins take one argument and give one value. -/
def KnowsBuiltins (shapes : String → Option Shape) : Prop :=
  ∀ op : Operation, op.isPolymorphic = true → shapes op.name = some (.function 1 1)

theorem variantName_specializes {op : Operation} (poly : op.isPolymorphic = true)
    (types : Option (List BasicTy)) :
    (Instruction.call (calleeName op.name types) 1).Specializes (.call op.name 1) := by
  unfold calleeName
  split
  · exact .refl _
  · dsimp only
    split
    next types isVariant =>
      rw [Bool.and_eq_true] at isVariant
      match types with
      | [] => exact .refl _
      | [ty] => exact .variant poly ty
      | first :: second :: rest =>
        rw [Builtin.not_isDefined_variantName] at isVariant
        cases isVariant.2
    next => exact .refl _

theorem calleeName_specializes {shapes : String → Option Shape} (knows : KnowsBuiltins shapes)
    {results : Nat} (known : shapes name = some (.function count results))
    (types : Option (List BasicTy)) :
    (Instruction.call (calleeName name types) count).Specializes (.call name count) := by
  by_cases poly : Builtin.isPolymorphicName name
  · obtain ⟨op, isPolymorphic, rfl, -⟩ := Builtin.operation_of_isPolymorphicName poly
    rw [knows op isPolymorphic] at known
    cases known
    exact variantName_specializes isPolymorphic types
  · have sameName : calleeName name types = name := by
      cases types <;> simp [calleeName, poly]
    rw [sameName]
    exact .refl _

/-! ## Expressions -/

variable {shapes : String → Option Shape}

/-- Code and the next label or counters, for something and for its bare form. -/
structure Parallel {α : Type} (typed bare : List Line × α) : Prop where
  code : Specialized typed.1 bare.1
  next : typed.2 = bare.2

mutual

theorem parallel_expr (knows : KnowsBuiltins shapes) (label : Nat) (expr : Expr)
    (regular : expr.Regular shapes) :
    Parallel (compileExpr label expr) (compileExpr label expr.bare) := by
  match expr with
  | .literal _ _ | .variableRef _ _ => exact ⟨.refl _, rfl⟩
  | .call name args span types =>
    have inner := parallel_exprs knows label args regular.2
    simp only [Expr.bare, compileExpr, Expr.length_bareAll]
    refine ⟨inner.code.append (.single ?_ span), inner.next⟩
    exact calleeName_specializes knows regular.1 types
  | .binary op left right span =>
    have leftCode := parallel_expr knows label left regular.1
    have rightCode := parallel_expr knows (compileExpr label left).2 right regular.2
    simp only [Expr.bare, compileExpr]
    rw [← leftCode.next]
    exact ⟨(leftCode.code.append rightCode.code).append (.refl _), rightCode.next⟩
  | .not operand span =>
    have inner := parallel_expr knows label operand regular
    simp only [Expr.bare, compileExpr]
    exact ⟨inner.code.append (.refl _), inner.next⟩
  | .negate operand span type =>
    have inner := parallel_expr knows label operand regular
    simp only [Expr.bare, compileExpr]
    exact ⟨inner.code.append (.single (variantName_specializes rfl _) span), inner.next⟩
  | .logical .and left right span | .logical .or left right span =>
    have leftCode := parallel_expr knows (label + 2) left regular.1
    have rightCode := parallel_expr knows (compileExpr (label + 2) left).2 right regular.2
    simp only [Expr.bare, compileExpr]
    rw [← leftCode.next]
    exact ⟨((leftCode.code.append (.refl _)).append rightCode.code).append (.refl _),
      rightCode.next⟩

theorem parallel_exprs (knows : KnowsBuiltins shapes) (label : Nat) (exprs : List Expr)
    (regular : Expr.RegularAll shapes exprs) :
    Parallel (compileExprs label exprs) (compileExprs label (Expr.bareAll exprs)) := by
  match exprs with
  | [] => exact ⟨.nil, rfl⟩
  | first :: rest =>
    have firstCode := parallel_expr knows label first regular.1
    have restCode := parallel_exprs knows (compileExpr label first).2 rest regular.2
    simp only [Expr.bareAll, compileExprs]
    rw [← firstCode.next]
    exact ⟨firstCode.code.append restCode.code, restCode.next⟩

end

theorem parallel_value (knows : KnowsBuiltins shapes) (counters : Counters)
    (regular : value.Regular shapes) :
    Parallel (compileValue counters value) (compileValue counters value.bare) := by
  obtain ⟨code, next⟩ := parallel_expr knows counters.label value regular
  simp only [compileValue]
  rw [← next]
  exact ⟨code, rfl⟩

theorem parallel_values (knows : KnowsBuiltins shapes) (counters : Counters)
    (regular : Expr.RegularAll shapes values) :
    Parallel (compileValues counters values) (compileValues counters (Expr.bareAll values)) := by
  obtain ⟨code, next⟩ := parallel_exprs knows counters.label values regular
  simp only [compileValues]
  rw [← next]
  exact ⟨code, rfl⟩

theorem parallel_tuple (knows : KnowsBuiltins shapes) (counters : Counters)
    (regular : value.RegularTuple shapes count) :
    Parallel (compileValue counters value) (compileValue counters value.bare) := by
  cases value with
  | call name args span types =>
    have inner := parallel_exprs knows counters.label args regular.2
    simp only [compileValue, Expr.bare, compileExpr, Expr.length_bareAll]
    rw [← inner.next]
    refine ⟨inner.code.append (.single ?_ span), rfl⟩
    exact calleeName_specializes knows regular.1 types
  | _ => exact regular.elim

/-! ## Commands -/

/-- Something and its bare form can be compiled, in parallel. -/
def BothCompile {α : Type} (typed bare : Except Error (List Line × α)) : Prop :=
  ∃ code bareCode next, typed = .ok (code, next) ∧ bare = .ok (bareCode, next) ∧
    Specialized code bareCode

theorem BothCompile.pure {α : Type} {code bareCode : List Line} {next : α}
    (specialized : Specialized code bareCode) :
    BothCompile (.ok (code, next)) (.ok (bareCode, next)) :=
  ⟨code, bareCode, next, rfl, rfl, specialized⟩

theorem BothCompile.bind {α β : Type} {typed bare : Except Error (List Line × α)}
    {rest bareRest : List Line × α → Except Error (List Line × β)}
    (both : BothCompile typed bare) (continues : ∀ code bareCode next,
      Specialized code bareCode → BothCompile (rest (code, next)) (bareRest (bareCode, next))) :
    BothCompile (typed >>= rest) (bare >>= bareRest) := by
  obtain ⟨code, bareCode, next, rfl, rfl, specialized⟩ := both
  exact continues code bareCode next specialized

mutual

theorem bothCompile_stmt (knows : KnowsBuiltins shapes) (counters : Counters) (stmt : Stmt)
    (regular : stmt.Regular shapes) :
    BothCompile (compileStmt counters stmt) (compileStmt counters stmt.bare) := by
  match stmt with
  | .skip _ => exact .pure .nil
  | .boom _ _ => exact .pure (.refl _)
  | .procedureCall name args span =>
    obtain ⟨code, next⟩ := parallel_values knows counters regular.2
    simp only [Stmt.bare, compileStmt, Expr.length_bareAll]
    rw [← next]
    exact .pure (code.append (.refl _))
  | .assign name value span =>
    obtain ⟨code, next⟩ := parallel_value knows counters regular
    simp only [Stmt.bare, compileStmt]
    rw [← next]
    exact .pure (code.append (.refl _))
  | .tupleAssign names value span =>
    obtain ⟨code, next⟩ := parallel_tuple knows counters regular.2
    simp only [Stmt.bare, compileStmt]
    rw [← next]
    exact .pure (code.append (.refl _))
  | .ifElse cond thenBranch none span =>
    obtain ⟨test, next⟩ := parallel_value knows (counters.takeLabels 1) regular.1
    simp only [Stmt.bare, Stmt.bareOptional, compileStmt]
    rw [← next]
    apply (bothCompile_block knows _ thenBranch regular.2.1).bind
    intro thenCode bareThen after thenParallel
    exact .pure (((test.append (.refl _)).append thenParallel).append (.refl _))
  | .ifElse cond thenBranch (some elseBranch) span =>
    obtain ⟨test, next⟩ := parallel_value knows (counters.takeLabels 1) regular.1
    simp only [Stmt.bare, Stmt.bareOptional, compileStmt]
    rw [← next]
    apply (bothCompile_block knows _ thenBranch regular.2.1).bind
    intro thenCode bareThen between thenParallel
    apply (bothCompile_block knows _ elseBranch regular.2.2).bind
    intro elseCode bareElse after elseParallel
    exact .pure (((((test.append (.refl _)).append thenParallel).append (.refl _)).append
      elseParallel).append (.refl _))
  | .whileLoop cond body span =>
    obtain ⟨test, next⟩ := parallel_value knows (counters.takeLabels 2) regular.1
    simp only [Stmt.bare, compileStmt]
    rw [← next]
    apply (bothCompile_block knows _ body regular.2).bind
    intro bodyCode bareBody after bodyParallel
    exact .pure (((((Specialized.refl _).append test).append (.refl _)).append
      bodyParallel).append (.refl _))
  | .repeatWith index lower upper body span type =>
    obtain ⟨lowerCode, lowerNext⟩ :=
      parallel_value knows (counters.takeHidden.takeLabels 2) regular.1
    obtain ⟨upperCode, upperNext⟩ := parallel_value knows
      (compileValue (counters.takeHidden.takeLabels 2) lower).2 regular.2.1
    have advance : Specialized (loopAdvance index type span) (loopAdvance index none span) :=
      .cons ⟨.refl _, rfl⟩ (.cons ⟨variantName_specializes rfl _, rfl⟩ (Specialized.refl _))
    simp only [Stmt.bare, compileStmt]
    rw [← lowerNext, ← upperNext]
    apply (bothCompile_block knows _ body regular.2.2).bind
    intro bodyCode bareBody after bodyParallel
    exact .pure (((((((((lowerCode.append (.refl _)).append upperCode).append (.refl _)).append
      (.refl _)).append (.refl _)).append bodyParallel).append (.refl _)).append
        advance).append (.refl _))
  | .caseOf scrutinee branches fallback span =>
    obtain ⟨subject, next⟩ := parallel_value knows (counters.takeHidden.takeLabels 1) regular.1
    simp only [Stmt.bare, compileStmt]
    rw [← next]
    apply (bothCompile_branches knows _ _ _ branches regular.2.1).bind
    intro branchCode bareBranches between branchesParallel
    apply (bothCompile_optional knows _ fallback regular.2.2).bind
    intro fallbackCode bareFallback after fallbackParallel
    exact .pure ((((subject.append (.refl _)).append branchesParallel).append
      fallbackParallel).append (.refl _))
  | .block body span =>
    simp only [Stmt.bare, compileStmt]
    exact bothCompile_block knows counters body regular
  | .returns _ _ _ => exact regular.elim

theorem bothCompile_block (knows : KnowsBuiltins shapes) (counters : Counters)
    (body : List Stmt) (regular : Stmt.RegularAll shapes body) :
    BothCompile (compileBlock counters body) (compileBlock counters (Stmt.bareAll body)) := by
  match body with
  | [] => exact .pure .nil
  | first :: rest =>
    simp only [Stmt.bareAll, compileBlock]
    apply (bothCompile_stmt knows counters first regular.1).bind
    intro firstCode bareFirst between firstParallel
    apply (bothCompile_block knows between rest regular.2).bind
    intro restCode bareRest after restParallel
    exact .pure (firstParallel.append restParallel)

theorem bothCompile_optional (knows : KnowsBuiltins shapes) (counters : Counters)
    (body : Option (List Stmt)) (regular : Stmt.RegularOptional shapes body) :
    BothCompile (compileOptional counters body)
      (compileOptional counters (Stmt.bareOptional body)) := by
  match body with
  | none => exact .pure .nil
  | some body =>
    simp only [Stmt.bareOptional, compileOptional]
    exact bothCompile_block knows counters body regular

theorem bothCompile_branches (knows : KnowsBuiltins shapes) (subject : String) (done : Nat)
    (counters : Counters) (branches : List Branch)
    (regular : Stmt.RegularBranches shapes branches) :
    BothCompile (compileBranches subject done counters branches)
      (compileBranches subject done counters (Stmt.bareBranches branches)) := by
  match branches with
  | [] => exact .pure .nil
  | .on literals body span :: rest =>
    simp only [Stmt.bareBranches, compileBranches]
    apply (bothCompile_block knows (counters.takeLabels 1) body regular.1).bind
    intro bodyCode bareBody between bodyParallel
    apply (bothCompile_branches knows subject done between rest regular.2).bind
    intro restCode bareRest after restParallel
    exact .pure ((((Specialized.refl _).append bodyParallel).append (.refl _)).append restParallel)

end

/-! ## Routines -/

/-- A type behind a name does not change what stands before the first at sign. -/
theorem plainName_variantName (name : String) (ty : BasicTy) :
    plainName (variantName name [ty]) = plainName name := by
  have cut (chars rest : List Char) :
      (chars ++ '@' :: rest).takeWhile (· != '@') = chars.takeWhile (· != '@') := by
    induction chars with
    | nil => rfl
    | cons first others ih => simp only [cons_append, takeWhile_cons, ih]
  have spelled : (variantName name [ty]).toList = name.toList ++ '@' :: ty.name.toList := by
    simp [variantName]
  rw [plainName, plainName, spelled, cut]

theorem outputNames_bare (types : List Ty)
    (areVariables : ∀ value ∈ values, value.variableName?.isSome) :
    ∃ names bareNames, outputNames values types = .ok names ∧
      outputNames (Expr.bareAll values) [] = .ok bareNames ∧
      names.map Prod.fst = bareNames.map Prod.fst ∧
      (names.map Prod.snd).map plainName = (bareNames.map Prod.snd).map plainName := by
  have plain {names : List (String × String)}
      (outputs : ∀ entry ∈ names, entry.2 = entry.1 ∨ ∃ ty, entry.2 = variantName entry.1 [ty]) :
      (names.map Prod.snd).map plainName = (names.map Prod.fst).map plainName := by
    rw [map_map, map_map]
    refine map_congr_left fun entry mem => ?_
    rcases outputs entry mem with same | ⟨ty, same⟩
    · exact congrArg plainName same
    · exact (congrArg plainName same).trans (plainName_variantName entry.1 ty)
  have bareVariables : ∀ value ∈ Expr.bareAll values, value.variableName?.isSome := by
    simpa [Expr.bareAll_eq_map] using areVariables
  obtain ⟨names, succeeds, sameNames, outputs⟩ := outputNames_succeeds values types areVariables
  obtain ⟨bareNames, bareSucceeds, sameBareNames, bareOutputs⟩ :=
    outputNames_succeeds (Expr.bareAll values) [] bareVariables
  have sameFirst : names.map Prod.fst = bareNames.map Prod.fst := by
    rw [sameNames, sameBareNames, Expr.bareAll_eq_map, filterMap_map]
    exact filterMap_congr fun value _ => (Expr.variableName?_bare value).symm
  exact ⟨names, bareNames, succeeds, bareSucceeds, sameFirst, by
    rw [plain outputs, plain bareOutputs, sameFirst]⟩

theorem bothCompile_return (knows : KnowsBuiltins shapes) (counters : Counters)
    (regular : defn.Regular shapes) :
    BothCompile (compileReturn counters defn) (compileReturn counters defn.bare) := by
  have sameMain : defn.bare.isMain = defn.isMain := rfl
  have sameKind : defn.bare.kind = defn.kind := rfl
  have sameSpan : defn.bare.span = defn.span := rfl
  rcases defn.finalReturn?_cases with ⟨span, types, returns⟩ | ⟨silent, -⟩
  · simp only [compileReturn, returns, Definition.finalReturn?_bare, Option.map_some, Stmt.bare,
      sameMain, sameKind]
    split
    next isMain =>
      obtain ⟨names, bareNames, succeeds, bareSucceeds, sameNames, sameOutputs⟩ :=
        outputNames_bare (types.getD []) (regular.main isMain)
      have pushes : names.map (fun entry => (Instruction.pushVariable entry.1, span)) =
          bareNames.map fun entry => (Instruction.pushVariable entry.1, span) := by
        simpa [Function.comp_def] using
          congrArg (List.map fun name => (Instruction.pushVariable name, span)) sameNames
      rw [succeeds, Option.getD_none, bareSucceeds, Expr.length_bareAll]
      refine ⟨_, _, _, rfl, rfl, ?_⟩
      rw [pushes]
      exact (Specialized.refl _).append (.single (.output _ sameOutputs) span)
    next =>
      obtain ⟨code, next⟩ := parallel_values knows counters regular.values
      rw [Expr.length_bareAll, ← next]
      exact ⟨_, _, _, rfl, rfl, (code.append (.refl _)).append (.refl _)⟩
  · simp only [compileReturn, silent, Definition.finalReturn?_bare, Option.map_none, sameMain,
      sameKind, sameSpan]
    split <;> exact ⟨_, _, _, rfl, rfl, .refl _⟩

end Compilation

structure Routine.Specializes (typed bare : Routine) : Prop where
  name : typed.name = bare.name
  kind : typed.kind = bare.kind
  parameters : typed.parameters = bare.parameters
  labels : typed.labels = bare.labels
  code : Specialized typed.code.toList bare.code.toList

namespace Specialized

variable {lines bareLines : List Line}

theorem placeLabels_eq (specialized : Specialized lines bareLines) (name : String)
    (labels : LabelTable) (offset : Nat) : Routine.placeLabels name labels offset lines =
      Routine.placeLabels name labels offset bareLines := by
  induction specialized generalizing labels offset with
  | nil => rfl
  | @cons line bareLine rest bareRest here _ ih =>
    obtain ⟨instr, span⟩ := line
    obtain ⟨bareInstruction, bareSpan⟩ := bareLine
    obtain ⟨spec, same⟩ := here
    cases same
    cases spec with
    | refl =>
      cases instr with
      | label placed => simp only [Routine.placeLabels, ih]
      | _ => simp only [Routine.placeLabels, ih]
    | variant => simp only [Routine.placeLabels, ih]
    | output => simp only [Routine.placeLabels, ih]

theorem undefinedTarget?_eq (specialized : Specialized lines bareLines) (name : String)
    (labels : LabelTable) : Routine.undefinedTarget? name labels lines =
      Routine.undefinedTarget? name labels bareLines := by
  induction specialized with
  | nil => rfl
  | @cons line bareLine rest bareRest here _ ih =>
    obtain ⟨instr, span⟩ := line
    obtain ⟨bareInstruction, bareSpan⟩ := bareLine
    obtain ⟨spec, same⟩ := here
    cases same
    cases spec <;> simp only [Routine.undefinedTarget?, Instruction.target?, ih]

/-- Code can be assembled with types if and only if it can be without. -/
theorem assemble (specialized : Specialized lines bareLines) {kind : RoutineKind}
    {params : List String} {routine : Routine}
    (assembled : Routine.assemble name kind params lines = .ok routine) :
    ∃ bareRoutine, Routine.assemble name kind params bareLines = .ok bareRoutine ∧
      routine.Specializes bareRoutine := by
  simp only [Routine.assemble, Routine.resolveLabels, specialized.placeLabels_eq,
    specialized.undefinedTarget?_eq] at assembled ⊢
  rcases placed : Routine.placeLabels name [] 0 bareLines with ⟨labels, _ | fault⟩
  · rcases defined : Routine.undefinedTarget? name labels bareLines with _ | fault
    · simp only [placed, defined] at assembled ⊢
      cases assembled
      exact ⟨_, rfl, rfl, rfl, rfl, rfl, by simpa using specialized⟩
    · simp [placed, defined] at assembled
  · simp [placed] at assembled

end Specialized

namespace Compilation

variable {shapes : String → Option Shape}
variable {defns : List Definition} {routines : Table Routine}

theorem compileDefinition_bare (knows : KnowsBuiltins shapes) (counters : Counters)
    (regular : defn.Regular shapes) : ∃ routine bareRoutine after,
      compileDefinition counters defn = .ok (routine, after) ∧
      compileDefinition counters defn.bare = .ok (bareRoutine, after) ∧
      routine.Specializes bareRoutine := by
  obtain ⟨routine, after, compiled⟩ := compileDefinition_succeeds counters regular
  obtain ⟨body, bareBody, between, compiledBody, bareCompiledBody, bodyParallel⟩ :=
    bothCompile_block knows counters _ regular.body
  obtain ⟨ending, bareEnding, last, compiledEnding, bareCompiledEnding, endingParallel⟩ :=
    bothCompile_return knows between regular
  have whole := compiled
  simp only [compileDefinition, bind_eq_ok, pure_eq_ok, Prod.exists, Prod.mk.injEq] at whole
  rw [compiledBody] at whole
  obtain ⟨_, _, same, whole⟩ := whole
  cases same
  rw [compiledEnding] at whole
  obtain ⟨_, _, same, assembled, isAssembled, rfl, rfl⟩ := whole
  cases same
  obtain ⟨bareRoutine, bareAssembled, spec⟩ :=
    (((Specialized.refl _).append bodyParallel).append endingParallel).assemble isAssembled
  refine ⟨_, bareRoutine, _, compiled, ?_, spec⟩
  simp only [compileDefinition, bind_eq_ok, Definition.bodyBeforeReturn_bare]
  exact ⟨_, bareCompiledBody, _, bareCompiledEnding, bareRoutine, bareAssembled, rfl⟩

theorem compileDefinitions_bare (knows : KnowsBuiltins shapes) (counters : Counters)
    (regular : ∀ defn ∈ defns, defn.Regular shapes) {bareRoutines : Table Routine}
    (related : Table.Related Routine.Specializes routines bareRoutines) :
    ∃ all bareAll, compileDefinitions counters routines defns = .ok all ∧
      compileDefinitions counters bareRoutines (defns.map Definition.bare) = .ok bareAll ∧
      Table.Related Routine.Specializes all bareAll := by
  induction defns generalizing counters routines bareRoutines with
  | nil => exact ⟨routines, bareRoutines, rfl, rfl, related⟩
  | cons first rest ih =>
    obtain ⟨firstRegular, restRegular⟩ := List.forall_mem_cons.mp regular
    obtain ⟨routine, bareRoutine, after, compiled, bareCompiled, spec⟩ :=
      compileDefinition_bare knows counters firstRegular
    obtain ⟨all, bareAll, compiledRest, bareCompiledRest, allRelated⟩ :=
      ih after restRegular (related.insert first.name spec)
    exact ⟨all, bareAll, bind_eq_ok.mpr ⟨_, compiled, compiledRest⟩,
      bind_eq_ok.mpr ⟨_, bareCompiled, bareCompiledRest⟩, allRelated⟩

theorem get?_compileDefinitions_of_notMem {counters : Counters} {all : Table Routine}
    (compiled : compileDefinitions counters routines defns = .ok all)
    (absent : ∀ defn ∈ defns, defn.name ≠ name) : all.get? name = routines.get? name := by
  induction defns generalizing counters routines with
  | nil =>
    cases compiled
    rfl
  | cons first rest ih =>
    obtain ⟨notFirst, notRest⟩ := List.forall_mem_cons.mp absent
    simp only [compileDefinitions, bind_eq_ok, Prod.exists] at compiled
    obtain ⟨routine, after, -, compiledRest⟩ := compiled
    rw [ih compiledRest notRest, Table.get?_insert, if_neg (Ne.symm notFirst)]

end Compilation

end StoneBoard
