import StoneBoard.Proofs.AsRead
import StoneBoard.Proofs.Tables

/-!
# Definitions that pass the checks

A definition that passes the checks is regular, for the shapes that the checks know of.
The definitions of a module that passes them have different names, which are neither
imported nor builtin.
-/

namespace StoneBoard

open List

variable {defn : Definition}

namespace Definition

variable {stmt : Stmt}

theorem mem_of_mem_bodyBeforeReturn (mem : stmt ∈ Compilation.bodyBeforeReturn defn) :
    stmt ∈ defn.body := by
  unfold Compilation.bodyBeforeReturn at mem
  split at mem
  · exact dropLast_subset _ mem
  · exact mem

theorem mem_bodyBeforeReturn (defn : Definition) (mem : stmt ∈ defn.body) :
    stmt ∈ Compilation.bodyBeforeReturn defn ∨ defn.finalReturn? = some stmt := by
  rcases eq_nil_or_concat' defn.body with isEmpty | ⟨body, last, isBody⟩
  · rw [isEmpty] at mem
    cases mem
  · have ending := finalReturn?_concat isBody
    rw [isBody] at mem
    unfold Compilation.bodyBeforeReturn
    by_cases returns : last.returned?.isSome = true
    · rw [ending, if_pos returns, isBody, dropLast_concat]
      rcases List.mem_append.mp mem with early | late
      · exact .inl early
      · rw [List.mem_singleton.mp late]
        exact .inr rfl
    · rw [ending, if_neg returns, isBody]
      exact .inl mem

theorem mem_of_finalReturn? (isFinal : defn.finalReturn? = some stmt) : stmt ∈ defn.body := by
  unfold finalReturn? at isFinal
  split at isFinal
  next isLast =>
    cases isFinal
    exact mem_of_getLast? isLast
  next => cases isFinal

end Definition

namespace Stmt

theorem AsReadAll.of_mem (asRead : AsReadAll places body) (mem : stmt ∈ body) :
    stmt.AsRead places := by
  induction body with
  | nil => cases mem
  | cons first rest ih =>
    rcases List.mem_cons.mp mem with rfl | later
    · exact asRead.1
    · exact ih asRead.2 later


mutual

/-- Some names are not assigned, and in the body of a loop its index is one more of them. -/
def Spares (fixed : List String) : Stmt → Prop
  | .skip _ | .boom _ _ | .procedureCall _ _ _ | .returns _ _ _ => True
  | .assign name _ _ => name ∉ fixed
  | .tupleAssign names _ _ => ∀ name ∈ names, name ∉ fixed
  | .ifElse _ thenBranch elseBranch _ =>
      SparesAll fixed thenBranch ∧ SparesOptional fixed elseBranch
  | .whileLoop _ body _ => SparesAll fixed body
  | .repeatWith index _ _ body _ _ => index ∉ fixed ∧ SparesAll (index :: fixed) body
  | .caseOf _ branches fallback _ => SparesBranches fixed branches ∧ SparesOptional fixed fallback
  | .block body _ => SparesAll fixed body

def SparesAll (fixed : List String) : List Stmt → Prop
  | [] => True
  | first :: rest => first.Spares fixed ∧ SparesAll fixed rest

def SparesOptional (fixed : List String) : Option (List Stmt) → Prop
  | none => True
  | some body => SparesAll fixed body

def SparesBranches (fixed : List String) : List Branch → Prop
  | [] => True
  | .on _ body _ :: rest => SparesAll fixed body ∧ SparesBranches fixed rest

end

end Stmt

namespace Check

variable {span : Span} {imported : Interface} {scope : Scope} {shapes : String → Option Shape}
variable {violation : Violation} {env larger : Environment} {prog : Program}

@[simp]
theorem require_eq_ok {cond : Bool} {result : Unit} :
    require cond violation span = .ok result ↔ cond = true := by
  cases cond <;> simp [require, violate]

@[simp]
theorem violate_eq_ok {α : Type} {result : α} : violate violation span = .ok result ↔ False := by
  simp [violate]

theorem importName_eq_ok {src : String} {entry : String × Span} {iface after : Interface} :
    importName src iface imported entry = .ok after ↔
      entry.1 ≠ "Main" ∧ imported.get? entry.1 = none ∧
        ∃ info, iface.get? entry.1 = some info ∧ (entry.1, info) :: imported = after := by
  obtain ⟨name, span⟩ := entry
  simp only [importName, bind_eq_ok, require_eq_ok, exists_unit, Table.contains, bne_iff_ne,
    Bool.not_eq_true', Option.isSome_eq_false_iff, Option.isNone_iff_eq_none]
  refine and_congr_right fun _ => and_congr_right fun _ => ?_
  cases iface.get? name with
  | none => simp
  | some info => simp [pure_eq_ok]

theorem forM_eq_ok {α : Type} {check : α → Checked Unit} {items : List α} :
    items.forM check = .ok () ↔ ∀ item ∈ items, check item = .ok () := by
  induction items with
  | nil => simp
  | cons first rest ih =>
    rw [forall_mem_cons, ← ih]
    exact bind_eq_ok.trans exists_unit

theorem violate_tracks {α β : Type} {Related : α → β → Prop} (violation : Violation) (span : Span) :
    Tracks (fun places => places span) Related (violate violation span)
      (violate violation span) := by
  refine ⟨fun _ succeeds => ?_, fun _ within => .error (.located rfl within)⟩
  cases succeeds

theorem require_tracks (cond : Bool) (violation : Violation) (span : Span) :
    Tracks (fun places => places span) (fun _ _ => cond = true)
      (require cond violation span) (require cond violation span) := by
  cases cond with
  | true => exact .pure rfl
  | false => exact violate_tracks violation span

theorem require_faults {places : Span → Prop} (cond : Bool) (violation : Violation)
    (within : places span) : FaultsIn places (require cond violation span) :=
  (require_tracks cond violation span).faults places within

/-! ## Calls -/

/-- The shape tells the kind and the number of arguments, and that of the results of a function. -/
theorem RoutineInfo.of_shape_eq {info other : RoutineInfo} (same : info.shape = other.shape) :
    info.kind = other.kind ∧ info.arity = other.arity ∧
      (other.kind = .function → info.returns.length = other.returns.length) := by
  cases kind : info.kind <;> cases otherKind : other.kind <;>
    simp_all [RoutineInfo.shape]

namespace Environment

def shape? (environment : Environment) (name : String) : Option Shape :=
  (environment.lookup? name).map RoutineInfo.shape

def Within (environment larger : Environment) : Prop :=
  ∀ name shape, environment.shape? name = some shape → larger.shape? name = some shape

variable {env larger : Environment} {kind : RoutineKind} {name : String} {count : Nat}
  {span : Span} {info : RoutineInfo}

theorem Within.refl (env : Environment) : env.Within env := fun _ _ => id

theorem resolve_eq_ok : env.resolve kind name count span = .ok info ↔
      env.lookup? name = some info ∧ info.kind = kind ∧ info.arity = count := by
  unfold resolve
  cases env.lookup? name with
  | none => simp
  | some known =>
    simp only [bind_eq_ok, require_eq_ok, pure_eq_ok, beq_iff_eq, exists_unit, Option.some.injEq]
    constructor
    · rintro ⟨sameKind, sameCount, rfl⟩
      exact ⟨rfl, sameKind, sameCount⟩
    · rintro ⟨rfl, sameKind, sameCount⟩
      exact ⟨sameKind, sameCount, rfl⟩

theorem Within.resolve (within : env.Within larger) (kind : RoutineKind) (name : String)
    (count : Nat) (span : Span) : Tracks (fun places => places span)
      (fun found told => (told.kind = kind ∧ told.arity = count) ∧ found.shape = told.shape ∧
        env.shape? name = some told.shape)
      (larger.resolve kind name count span) (env.resolve kind name count span) := by
  constructor
  · intro told resolved
    obtain ⟨known, fits⟩ := resolve_eq_ok.mp resolved
    have isShape : env.shape? name = some told.shape := by
      rw [shape?, known, Option.map_some]
    obtain ⟨found, isFound, same⟩ := Option.map_eq_some_iff.mp (within name _ isShape)
    obtain ⟨sameKind, sameArity, -⟩ := RoutineInfo.of_shape_eq same
    exact ⟨found, resolve_eq_ok.mpr ⟨isFound, sameKind.trans fits.1, sameArity.trans fits.2⟩,
      fits, same, isShape⟩
  · intro places within
    unfold Environment.resolve
    split
    · exact .error (.located rfl within)
    · apply (require_faults _ _ within).bind
      intro _ _
      apply (require_faults _ _ within).bind
      intro _ _
      exact .ok _

theorem Within.procedure (within : env.Within larger) (name : String) (count : Nat) (span : Span) :
    Tracks (fun places => places span)
      (fun _ _ => env.shape? name = some (.procedure count))
      (larger.resolve .procedure name count span) (env.resolve .procedure name count span) := by
  refine (within.resolve .procedure name count span).mono (fun _ => id) ?_
  rintro found told ⟨⟨isProcedure, isArity⟩, -, isShape⟩
  rwa [RoutineInfo.shape, isProcedure, isArity] at isShape

theorem Within.function (within : env.Within larger) (name : String) (count : Nat) (span : Span) :
    Tracks (fun places => places span)
      (fun found told => found.returns.length = told.returns.length ∧
        env.shape? name = some (.function count told.returns.length))
      (larger.resolve .function name count span) (env.resolve .function name count span) := by
  refine (within.resolve .function name count span).mono (fun _ => id) ?_
  rintro found told ⟨⟨isFunction, isArity⟩, same, isShape⟩
  rw [RoutineInfo.shape, isFunction, isArity] at isShape
  exact ⟨(RoutineInfo.of_shape_eq same).2.2 isFunction, isShape⟩

end Environment

mutual

/-- An expression that passes the checks is regular, and passes them where more is known. -/
theorem checkExpr_tracks (within : env.Within larger) (expr : Expr) :
    Tracks (expr.AsRead ·) (fun _ _ => expr.Regular env.shape?)
      (checkExpr larger expr) (checkExpr env expr) := by
  match expr with
  | .literal _ _ | .variableRef _ _ => exact .pure trivial
  | .call name args span _ =>
    apply (within.function name args.length span).bind fun _ read => read.2.1
    rintro found told ⟨sameCount, isShape⟩
    rw [sameCount]
    apply (require_tracks _ _ span).bind fun _ read => read.2.1
    intro _ _ oneValue
    rw [beq_iff_eq.mp oneValue] at isShape
    exact (checkExprs_tracks within args).mono (fun _ read => read.1)
      fun _ _ regular => ⟨isShape, regular⟩
  | .binary _ left right _ | .logical _ left right _ =>
    apply (checkExpr_tracks within left).bind fun _ read => read.1
    intro _ _ leftRegular
    exact (checkExpr_tracks within right).mono (fun _ read => read.2.1)
      fun _ _ rightRegular => ⟨leftRegular, rightRegular⟩
  | .not operand _ | .negate operand _ _ =>
    exact (checkExpr_tracks within operand).mono (fun _ read => read.1) fun _ _ => id

theorem checkExprs_tracks (within : env.Within larger) (exprs : List Expr) :
    Tracks (Expr.AsReadAll · exprs) (fun _ _ => Expr.RegularAll env.shape? exprs)
      (checkExprs larger exprs) (checkExprs env exprs) := by
  match exprs with
  | [] => exact .pure trivial
  | first :: rest =>
    apply (checkExpr_tracks within first).bind fun _ read => read.1
    intro _ _ firstRegular
    exact (checkExprs_tracks within rest).mono (fun _ read => read.2)
      fun _ _ restRegular => ⟨firstRegular, restRegular⟩

end

/-! ## Commands -/

theorem nodup_cons_of_new {first : String} {rest earlier : List String}
    (isNew : (!earlier.contains first) = true)
    (restNew : rest.Nodup ∧ ∀ name ∈ rest, name ∉ first :: earlier) :
    (first :: rest).Nodup ∧ ∀ name ∈ first :: rest, name ∉ earlier := by
  obtain ⟨nodup, restNew⟩ := restNew
  refine ⟨List.nodup_cons.mpr ⟨fun again => restNew first again mem_cons_self, nodup⟩, ?_⟩
  refine List.forall_mem_cons.mpr ⟨by simpa using isNew, fun name mem isEarlier => ?_⟩
  exact restNew name mem (mem_cons_of_mem _ isEarlier)

namespace Scope

def inside (scope : Scope) (environment : Environment) : Scope := { scope with environment }

def fixed (scope : Scope) : List String := scope.indices ++ scope.definition.parameters

theorem not_mem_fixed {name : String} (notIndex : (!scope.indices.contains name) = true)
    (notParameter : (!scope.definition.parameters.contains name) = true) : name ∉ scope.fixed := by
  rw [fixed, mem_append, not_or]
  exact ⟨by simpa using notIndex, by simpa using notParameter⟩

theorem checkAssignable_tracks (scope : Scope) (span : Span) (name : String) :
    Tracks (fun places => places span) (fun _ _ => name ∉ scope.fixed)
      ((scope.inside larger).checkAssignable span name) (scope.checkAssignable span name) := by
  apply (require_tracks _ _ span).bind fun _ => id
  intro _ _ notIndex
  exact (require_tracks _ _ span).mono (fun _ => id) fun _ _ => not_mem_fixed notIndex

theorem checkTargets_tracks (scope : Scope) (span : Span) (earlier names : List String) :
    Tracks (fun places => places span)
      (fun _ _ => (names.Nodup ∧ ∀ name ∈ names, name ∉ earlier) ∧
        ∀ name ∈ names, name ∉ scope.fixed) ((scope.inside larger).checkTargets span earlier names)
      (scope.checkTargets span earlier names) := by
  induction names generalizing earlier with
  | nil => exact .pure (by simp)
  | cons first rest ih =>
    apply (require_tracks _ _ span).bind fun _ => id
    intro _ _ isNew
    apply (scope.checkAssignable_tracks span first).bind fun _ => id
    intro _ _ free
    refine (ih (first :: earlier)).mono (fun _ => id) ?_
    rintro _ _ ⟨restNew, restFree⟩
    exact ⟨nodup_cons_of_new isNew restNew, List.forall_mem_cons.mpr ⟨free, restFree⟩⟩

theorem checkIndex_tracks (scope : Scope) (assigned : List String) (span : Span) (index : String) :
    Tracks (fun places => places span) (fun _ _ => index ∉ scope.fixed)
      ((scope.inside larger).checkIndex assigned span index)
      (scope.checkIndex assigned span index) := by
  apply (require_tracks _ _ span).bind fun _ => id
  intro _ _ notIndex
  apply (require_tracks _ _ span).bind fun _ => id
  intro _ _ notParameter
  exact (require_tracks _ _ span).mono (fun _ => id) fun _ _ _ =>
    not_mem_fixed notIndex notParameter

theorem checkTuple_tracks (within : scope.environment.Within larger) (names : List String)
    (value : Expr) (span : Span) : Tracks (fun places => value.AsRead places ∧ places span)
      (fun _ _ => (names.Nodup ∧ value.RegularTuple scope.environment.shape? names.length) ∧
        ∀ name ∈ names, name ∉ scope.fixed) ((scope.inside larger).checkTuple names value span)
      (scope.checkTuple names value span) := by
  apply (scope.checkTargets_tracks span [] names).bind fun _ read => read.2
  rintro _ _ ⟨⟨nodup, -⟩, free⟩
  cases value with
  | call name args callSpan types =>
    apply (within.function name args.length callSpan).bind fun _ read => read.1.2.1
    rintro found told ⟨sameCount, isShape⟩
    rw [sameCount]
    apply (require_tracks _ _ callSpan).bind fun _ read => read.1.2.1
    intro _ _ isCount
    rw [beq_iff_eq.mp isCount] at isShape
    exact (checkExprs_tracks within args).mono (fun _ read => read.1.1)
      fun _ _ regular => ⟨⟨nodup, isShape, regular⟩, free⟩
  | _ => exact (violate_tracks _ _).mono (fun _ read => read.1.within) fun _ _ => id

end Scope

theorem addLiterals_tracks (span : Span) (seen literals : List Value) :
    Tracks (fun places => places span) Eq (addLiterals span seen literals)
      (addLiterals span seen literals) := by
  induction literals generalizing seen with
  | nil => exact .pure rfl
  | cons literal rest ih =>
    apply (require_tracks _ _ span).bind fun _ => id
    intro _ _ _
    exact ih _

mutual

/-- A command that passes the checks is regular, unless it is the return at the end of the
routine.  It assigns neither parameters nor the indices of loops around it. -/
theorem checkStmt_tracks (scope : Scope) (within : scope.environment.Within larger)
    (isLast : Bool) (assigned : List String) (stmt : Stmt) : Tracks (stmt.AsRead ·)
      (fun found told => found = told ∧
        (stmt.Regular scope.environment.shape? ∨
          ∃ values span types, stmt = .returns values span types ∧ isLast = true ∧
            Expr.RegularAll scope.environment.shape? values) ∧
        stmt.Spares scope.fixed) (checkStmt (scope.inside larger) isLast assigned stmt)
      (checkStmt scope isLast assigned stmt) := by
  match stmt with
  | .skip _ | .boom _ _ => exact .pure ⟨rfl, .inl trivial, trivial⟩
  | .procedureCall name args span =>
    apply (within.procedure name args.length span).bind fun _ read => read.2
    intro _ _ isShape
    apply (checkExprs_tracks within args).bind fun _ read => read.1
    intro _ _ regular
    exact .pure ⟨rfl, .inl ⟨isShape, regular⟩, trivial⟩
  | .assign name value span =>
    apply (scope.checkAssignable_tracks span name).bind fun _ read => read.2.2
    intro _ _ free
    apply (checkExpr_tracks within value).bind fun _ read => read.2.1
    intro _ _ regular
    exact .pure ⟨rfl, .inl regular, free⟩
  | .tupleAssign names value span =>
    apply (Scope.checkTuple_tracks within names value span).bind fun _ read => read.2
    rintro _ _ ⟨regular, free⟩
    exact .pure ⟨rfl, .inl regular, free⟩
  | .ifElse cond thenBranch elseBranch _ =>
    apply (checkExpr_tracks within cond).bind fun _ read => read.1
    intro _ _ regular
    apply (checkBlock_tracks scope within assigned thenBranch).bind fun _ read => read.2.1
    rintro between _ ⟨rfl, thenRegular, thenSpares⟩
    refine (checkOptional_tracks scope within between elseBranch).mono
      (fun _ read => read.2.2.1) ?_
    rintro _ _ ⟨same, elseRegular, elseSpares⟩
    exact ⟨same, .inl ⟨regular, thenRegular, elseRegular⟩, thenSpares, elseSpares⟩
  | .whileLoop cond body _ =>
    apply (checkExpr_tracks within cond).bind fun _ read => read.1
    intro _ _ regular
    refine (checkBlock_tracks scope within assigned body).mono (fun _ read => read.2.1) ?_
    rintro _ _ ⟨same, bodyRegular, spares⟩
    exact ⟨same, .inl ⟨regular, bodyRegular⟩, spares⟩
  | .repeatWith index lower upper body span _ =>
    apply (scope.checkIndex_tracks assigned span index).bind fun _ read => read.2.2.2.2.1
    intro _ _ free
    apply (checkExpr_tracks within lower).bind fun _ read => read.2.1
    intro _ _ lowerRegular
    apply (checkExpr_tracks within upper).bind fun _ read => read.2.2.1
    intro _ _ upperRegular
    refine (checkBlock_tracks (scope.within index) within assigned body).mono
      (fun _ read => read.2.2.2.1) ?_
    rintro _ _ ⟨same, regular, spares⟩
    exact ⟨same, .inl ⟨lowerRegular, upperRegular, regular⟩, free, spares⟩
  | .caseOf scrutinee branches fallback _ =>
    apply (checkExpr_tracks within scrutinee).bind fun _ read => read.1
    intro _ _ regular
    apply (checkBranches_tracks scope within [] assigned branches).bind fun _ read => read.2.1
    rintro between _ ⟨rfl, branchesRegular, branchesSpare⟩
    refine (checkOptional_tracks scope within between fallback).mono
      (fun _ read => read.2.2.1) ?_
    rintro _ _ ⟨same, fallbackRegular, fallbackSpares⟩
    exact ⟨same, .inl ⟨regular, branchesRegular, fallbackRegular⟩, branchesSpare, fallbackSpares⟩
  | .block body _ =>
    refine (checkBlock_tracks scope within assigned body).mono (fun _ read => read.1) ?_
    rintro _ _ ⟨same, regular, spares⟩
    exact ⟨same, .inl regular, spares⟩
  | .returns values span types =>
    apply (require_tracks isLast _ span).bind fun _ read => read.2.1
    intro _ _ isLast
    apply (require_tracks _ _ span).bind fun _ read => read.2.1
    intro _ _ _
    apply (checkExprs_tracks within values).bind fun _ read => read.1
    intro _ _ regular
    exact .pure ⟨rfl, .inr ⟨values, span, types, rfl, isLast, regular⟩, trivial⟩

theorem checkBlock_tracks (scope : Scope) (within : scope.environment.Within larger)
    (assigned : List String) (body : List Stmt) : Tracks (Stmt.AsReadAll · body)
      (fun found told => found = told ∧ Stmt.RegularAll scope.environment.shape? body ∧
        Stmt.SparesAll scope.fixed body)
      (checkBlock (scope.inside larger) assigned body) (checkBlock scope assigned body) := by
  match body with
  | [] => exact .pure ⟨rfl, trivial, trivial⟩
  | first :: rest =>
    apply (checkStmt_tracks scope within false assigned first).bind fun _ read => read.1
    rintro between _ ⟨rfl, regular | ⟨_, _, _, _, isLast, _⟩, spares⟩
    · refine (checkBlock_tracks scope within between rest).mono (fun _ read => read.2) ?_
      rintro _ _ ⟨same, restRegular, restSpares⟩
      exact ⟨same, ⟨regular, restRegular⟩, spares, restSpares⟩
    · cases isLast

theorem checkOptional_tracks (scope : Scope) (within : scope.environment.Within larger)
    (assigned : List String) (body : Option (List Stmt)) : Tracks (Stmt.AsReadOptional · body)
      (fun found told => found = told ∧ Stmt.RegularOptional scope.environment.shape? body ∧
        Stmt.SparesOptional scope.fixed body) (checkOptional (scope.inside larger) assigned body)
      (checkOptional scope assigned body) := by
  match body with
  | none => exact .pure ⟨rfl, trivial, trivial⟩
  | some body => exact checkBlock_tracks scope within assigned body

theorem checkBranches_tracks (scope : Scope) (within : scope.environment.Within larger)
    (seen : List Value) (assigned : List String) (branches : List Branch) :
    Tracks (Stmt.AsReadBranches · branches)
      (fun found told => found = told ∧ Stmt.RegularBranches scope.environment.shape? branches ∧
        Stmt.SparesBranches scope.fixed branches)
      (checkBranches (scope.inside larger) seen assigned branches)
      (checkBranches scope seen assigned branches) := by
  match branches with
  | [] => exact .pure ⟨rfl, trivial, trivial⟩
  | .on literals body span :: rest =>
    apply (addLiterals_tracks span seen literals).bind fun _ read => read.2.1
    rintro seen _ rfl
    apply (checkBlock_tracks scope within assigned body).bind fun _ read => read.1
    rintro between _ ⟨rfl, regular, spares⟩
    refine (checkBranches_tracks scope within seen between rest).mono (fun _ read => read.2.2) ?_
    rintro _ _ ⟨same, restRegular, restSpares⟩
    exact ⟨same, ⟨regular, restRegular⟩, spares, restSpares⟩

end

/-- All commands of a routine but the last one are regular, and the last one may be a return. -/
theorem checkBody_tracks (scope : Scope) (within : scope.environment.Within larger)
    (assigned : List String) (body : List Stmt) : Tracks (Stmt.AsReadAll · body)
      (fun _ _ => Stmt.SparesAll scope.fixed body ∧ ∀ early last, body = early ++ [last] →
        Stmt.RegularAll scope.environment.shape? early ∧
          (last.Regular scope.environment.shape? ∨
            ∃ values span types, last = .returns values span types ∧
              Expr.RegularAll scope.environment.shape? values))
      (checkBody (scope.inside larger) assigned body) (checkBody scope assigned body) := by
  induction body generalizing assigned with
  | nil => exact .pure ⟨trivial, fun early last isBody => by simp at isBody⟩
  | cons first rest ih =>
    apply (checkStmt_tracks scope within rest.isEmpty assigned first).bind fun _ read => read.1
    rintro between _ ⟨rfl, firstRegular, spares⟩
    refine (ih between).mono (fun _ read => read.2) ?_
    rintro _ _ ⟨restSpares, restRegular⟩
    refine ⟨⟨spares, restSpares⟩, fun early last isBody => ?_⟩
    cases early with
    | nil =>
      cases isBody
      refine ⟨trivial, firstRegular.imp_right ?_⟩
      rintro ⟨values, span, types, isReturn, -, regular⟩
      exact ⟨values, span, types, isReturn, regular⟩
    | cons other others =>
      cases isBody
      obtain ⟨earlyRegular, lastRegular⟩ := restRegular others last rfl
      rcases firstRegular with regular | ⟨_, _, _, _, isLast, _⟩
      · exact ⟨⟨regular, earlyRegular⟩, lastRegular⟩
      · simp at isLast

/-! ## Definitions -/

theorem checkParameters_tracks (defn : Definition) (earlier names : List String) :
    Tracks (fun places => places defn.span)
      (fun _ _ => names.Nodup ∧ ∀ name ∈ names, name ∉ earlier)
      (checkParameters defn earlier names) (checkParameters defn earlier names) := by
  induction names generalizing earlier with
  | nil => exact .pure (by simp)
  | cons first rest ih =>
    apply (require_tracks _ _ defn.span).bind fun _ => id
    intro _ _ isNew
    exact (ih (first :: earlier)).mono (fun _ => id) fun _ _ => nodup_cons_of_new isNew

/-- The main procedure returns variables, and other procedures return nothing. -/
theorem checkReturn_tracks (defn : Definition) : Tracks (defn.AsRead ·)
      (fun _ _ => (defn.isMain = true →
          ∀ value ∈ defn.returned, value.variableName?.isSome) ∧
        (defn.kind = .procedure → defn.isMain = false →
          defn.finalReturn? = none)) (checkReturn defn) (checkReturn defn) := by
  refine ⟨fun _ checked => ⟨_, checked, fun isMain => ?_, fun isProcedure notMain => ?_⟩,
    fun places asRead => ?_⟩
  · simp only [Definition.isMain, Bool.and_eq_true, beq_iff_eq] at isMain
    rcases defn.finalReturn?_cases with ⟨span, types, returns⟩ | ⟨-, silent⟩
    · simp only [checkReturn, isMain.1, returns, isMain.2, beq_self_eq_true, if_true,
        require_eq_ok, all_eq_true] at checked
      intro value mem
      have isVariable := checked value mem
      cases value with
      | variableRef => rfl
      | _ => cases isVariable
    · simp [silent]
  · have otherName : (defn.name == "Main") = false := by
      simpa [Definition.isMain, isProcedure] using notMain
    rcases defn.finalReturn?_cases with ⟨span, types, returns⟩ | ⟨silent, -⟩
    · simp [checkReturn, isProcedure, returns, otherName] at checked
    · exact silent
  · have final {values : List Expr} {span : Span} {types : Option (List Ty)}
        (isFinal : defn.finalReturn? = some (.returns values span types)) :
        places span :=
      (asRead.body.of_mem (Definition.mem_of_finalReturn? isFinal)).2.1
    unfold checkReturn
    split
    next isFinal =>
      split
      · exact require_faults _ _ (final isFinal)
      · exact .error (.located rfl (final isFinal))
    next => exact .ok ()
    next isFinal => exact require_faults _ _ (final isFinal)
    next =>
      split
      · exact .error (.located rfl asRead.within)
      · exact .error (.located rfl asRead.within)

/-- The body and the final return of a definition that passes the checks are regular. -/
theorem regular_of_body
    (sound : ∀ early last, defn.body = early ++ [last] → Stmt.RegularAll shapes early ∧
      (last.Regular shapes ∨ ∃ values span types, last = .returns values span types ∧
        Expr.RegularAll shapes values)) :
    Stmt.RegularAll shapes (Compilation.bodyBeforeReturn defn) ∧
      Expr.RegularAll shapes defn.returned := by
  rcases eq_nil_or_concat' defn.body with isEmpty | ⟨body, last, isBody⟩
  · have silent : defn.finalReturn? = none := by simp [Definition.finalReturn?, isEmpty]
    simp only [Compilation.bodyBeforeReturn, Definition.returned, silent, isEmpty]
    exact ⟨trivial, trivial⟩
  · have ending := Definition.finalReturn?_concat isBody
    obtain ⟨regular, lastRegular | ⟨values, span, types, rfl, valuesRegular⟩⟩ :=
      sound body last isBody
    · have silent : defn.finalReturn? = none := by
        cases last with
        | returns => exact lastRegular.elim
        | _ => exact ending
      simp only [Compilation.bodyBeforeReturn, Definition.returned, silent, isBody,
        Stmt.regularAll_iff, forall_mem_append]
      exact ⟨⟨(Stmt.regularAll_iff _ _).mp regular, by simpa using lastRegular⟩, trivial⟩
    · have returns : defn.finalReturn? = some (.returns values span types) := ending
      simp only [Compilation.bodyBeforeReturn, Definition.returned, returns, isBody,
        dropLast_concat]
      exact ⟨regular, valuesRegular⟩

/-- A definition that passes the checks is regular, and does not assign what it is given.  It
passes them where more is known as well. -/
theorem checkDefinition_tracks (within : env.Within larger) (defn : Definition) :
    Tracks (defn.AsRead ·) (fun _ _ => defn.Regular env.shape? ∧ defn.parameters.Nodup ∧
        Stmt.SparesAll defn.parameters defn.body)
      (checkDefinition larger defn) (checkDefinition env defn) := by
  apply (checkParameters_tracks defn [] defn.parameters).bind
    fun _ read => read.within
  rintro _ _ ⟨nodup, -⟩
  apply (checkReturn_tracks defn).bind fun _ => id
  rintro _ _ ⟨main, silent⟩
  refine (checkBody_tracks ⟨env, defn, []⟩ within [] defn.body).mono
    (fun _ read => read.body) ?_
  rintro _ _ ⟨spares, sound⟩
  obtain ⟨bodyRegular, valuesRegular⟩ := regular_of_body sound
  exact ⟨⟨bodyRegular, valuesRegular, main, silent⟩, nodup, spares⟩

theorem regular_of_checkDefinition (checked : checkDefinition env defn = .ok ()) :
    defn.Regular env.shape? := by
  obtain ⟨-, -, regular, -⟩ := (checkDefinition_tracks (.refl env) defn).tracks () checked
  exact regular

/-- Definitions pass the checks as well with other imports, if these have the same shapes for all
that has been imported, and none of the names of the definitions unless it has been there. -/
theorem checkDefinitions_within {entry : Bool} {other : Interface}
    (within : ∀ locals, Environment.Within ⟨locals, imported⟩ ⟨locals, other⟩)
    (sameNames : ∀ defn ∈ prog.definitions, other.contains defn.name = imported.contains defn.name)
    (checked : checkDefinitions entry imported prog = .ok ()) (imports : List Import) :
    checkDefinitions entry other { prog with imports } = .ok () := by
  have sameDeclare (known : Interface) : prog.definitions.foldlM (declare other) known =
      prog.definitions.foldlM (declare imported) known := by
    generalize prog.definitions = defns at sameNames
    induction defns generalizing known with
    | nil => rfl
    | cons first rest ih =>
      obtain ⟨same, restSame⟩ := List.forall_mem_cons.mp sameNames
      rw [foldlM_cons, foldlM_cons, declare, declare, same]
      exact bind_congr fun between => ih between restSame
  have checks (locals : Interface)
      (each : prog.definitions.forM (checkDefinition ⟨locals, imported⟩) = .ok ()) :
      prog.definitions.forM (checkDefinition ⟨locals, other⟩) = .ok () := by
    rw [forM_eq_ok] at each ⊢
    intro defn mem
    obtain ⟨_, again, -⟩ := (checkDefinition_tracks (within locals) defn).tracks () (each defn mem)
    exact again
  cases entry <;>
    simp only [checkDefinitions, Bool.false_eq_true, if_false, if_true, bind_eq_ok, exists_unit,
      require_eq_ok, sameDeclare] at checked ⊢
  case false =>
    obtain ⟨locals, declared, each⟩ := checked
    exact ⟨locals, declared, checks locals each⟩
  case true =>
    obtain ⟨notEmpty, locals, declared, isMain, each⟩ := checked
    exact ⟨notEmpty, locals, declared, isMain, checks locals each⟩

/-- The definitions that a module declares have different names, which are neither builtin
nor imported; they are what is known under these names. -/
theorem declare_all {before locals : Interface} {defns : List Definition}
    (declared : defns.foldlM (declare imported) before = .ok locals) :
    (defns.map Definition.name).Nodup ∧
      (∀ defn ∈ defns, Builtin.isDefined defn.name = false ∧
        imported.get? defn.name = none ∧ before.get? defn.name = none) ∧
      ∀ name, locals.get? name = ((defns.find? fun defn => defn.name == name).map
          Definition.info).or (before.get? name) := by
  induction defns generalizing before with
  | nil =>
    cases declared
    simp
  | cons first rest ih =>
    simp only [foldlM_cons, declare, bind_eq_ok, require_eq_ok, exists_unit, pure_eq_ok] at declared
    obtain ⟨between, ⟨notReserved, notTaken, rfl⟩, declaredRest⟩ := declared
    obtain ⟨restNodup, restNew, known⟩ := ih declaredRest
    have isNew : Builtin.isDefined first.name = false ∧ imported.get? first.name = none ∧
        before.get? first.name = none := by
      simp only [Table.contains, Bool.not_or, Option.not_isSome, Bool.and_eq_true,
        Bool.not_eq_eq_eq_not, Bool.not_true, Option.isNone_iff_eq_none] at notReserved notTaken
      exact ⟨notReserved.1, notTaken.2, notTaken.1⟩
    refine ⟨?_, List.forall_mem_cons.mpr ⟨isNew, fun other mem => ?_⟩, fun name => ?_⟩
    · rw [map_cons, nodup_cons]
      refine ⟨fun again => ?_, restNodup⟩
      obtain ⟨other, mem, sameName⟩ := List.mem_map.mp again
      have absent := (restNew other mem).2.2
      simp [Table.get?_cons, sameName] at absent
    · obtain ⟨notBuiltin, notImported, absent⟩ := restNew other mem
      refine ⟨notBuiltin, notImported, ?_⟩
      rw [Table.get?_cons] at absent
      split at absent
      · cases absent
      · exact absent
    · rw [known, find?_cons, Table.get?_cons]
      by_cases same : first.name = name
      · have others : rest.find? (fun defn => defn.name == name) = none := by
          rw [find?_eq_none]
          intro other mem sameName
          have absent := (restNew other mem).2.2
          simp only [beq_iff_eq] at sameName
          simp [Table.get?_cons, same, sameName] at absent
        simp [same, others]
      · rw [if_neg (Ne.symm same), beq_eq_false_iff_ne.mpr same]

theorem checkDefinitions_eq_ok {entry : Bool}
    (checked : checkDefinitions entry imported prog = .ok ()) :
    (entry = true → checkMain prog = .ok ()) ∧
      (prog.definitions.map Definition.name).Nodup ∧
      (∀ defn ∈ prog.definitions, Builtin.isDefined defn.name = false ∧
        imported.get? defn.name = none) ∧
      ∃ locals : Interface,
        (∀ name, locals.get? name = (prog.definition? name).map Definition.info) ∧
        ∀ defn ∈ prog.definitions, checkDefinition ⟨locals, imported⟩ defn = .ok () := by
  obtain ⟨locals, declared, mainChecked, definitionsChecked⟩ : ∃ locals,
      prog.definitions.foldlM (declare imported) [] = .ok locals ∧
        (entry = true → checkMain prog = .ok ()) ∧
        prog.definitions.forM (checkDefinition ⟨locals, imported⟩) = .ok () := by
    cases entry <;>
      simp only [checkDefinitions, Bool.false_eq_true, if_false, if_true, bind_eq_ok,
        exists_unit, require_eq_ok] at checked
    case false => simpa using checked
    case true => simpa using checked.2
  obtain ⟨nodup, isNew, known⟩ := declare_all declared
  refine ⟨mainChecked, nodup, fun defn mem => ?_, locals, fun name => ?_,
    forM_eq_ok.mp definitionsChecked⟩
  · exact ⟨(isNew defn mem).1, (isNew defn mem).2.1⟩
  · simpa [Program.definition?] using known name

theorem checkMain_eq_ok (checked : checkMain prog = .ok ()) :
    ∃ main, prog.definition? "Main" = some main ∧ main.isMain = true ∧
      main.parameters = [] := by
  unfold checkMain at checked
  split at checked
  · simp at checked
  · rename_i main found
    simp only [bind_eq_ok, require_eq_ok, exists_unit, beq_iff_eq, List.isEmpty_iff] at checked
    have sameName := find?_some found
    exact ⟨main, found, by simpa [Definition.isMain, checked.1] using sameName, checked.2.2⟩

end Check

end StoneBoard
